/-
# A sale that is refused

`handleClientSaleRequest` (`sale.cpp`) answers with an error when the request cannot be read, the
amount is not positive, or no auth sample of the right size can be built.  By the time it asks for
the sample it has stored the details of the sale, under the key of a payment that may be running.

* `SameEntries`: what an error should leave of the global context;
* `Refused`: the requests whose details are stored before the sample fails;
* `leavesNoTrace_iff`: an error leaves no trace, unless such a request changes the entry of its
  details.
-/
import GraftSupernode.SaleHandlers
import GraftSupernode.AuthVotes

open AtomicProgram GlobalContext

namespace GlobalContext

variable {V : Type} {keys : List String} {m m' : GlobalContextMap V}

/-- The entries are the same, but the time of those under `keys` may be updated. -/
structure SameEntries (keys : List String) (m m' : GlobalContextMap V) : Prop where
  now : m'.now = m.now
  node : ∀ key, m'.node key = m.node key ∨
    key ∈ keys ∧ m'.node key = (m.node key).map (Node.updateTime m.now)

theorem SameEntries.refl (keys : List String) (m : GlobalContextMap V) : SameEntries keys m m :=
  ⟨rfl, fun _ => .inl rfl⟩

/-- The values are the same. -/
theorem SameEntries.lookup (h : SameEntries keys m m') : m'.lookup = m.lookup := by
  funext key
  rw [GlobalContextMap.lookup, GlobalContextMap.lookup]
  rcases h.node key with hsame | ⟨-, htouched⟩
  · rw [hsame]
  · rw [htouched, Option.map_map]
    rfl

/-- A read of one of the keys. -/
theorem SameEntries.touch (h : SameEntries keys m m') {key : String} (hkey : key ∈ keys) :
    SameEntries keys m (m'.touch key) := by
  rw [touch_eq]
  refine ⟨h.now, fun k => ?_⟩
  dsimp only
  by_cases hk : k = key
  · subst hk
    rw [Function.update_self, h.now]
    rcases h.node k with hsame | ⟨-, htouched⟩
    · exact .inr ⟨hkey, by rw [hsame]⟩
    · refine .inr ⟨hkey, ?_⟩
      rw [htouched, Option.map_map]
      rfl
  · rw [Function.update_of_ne hk]
    exact h.node k

/-- The entry under a key has the value, and an access at this second does not move its time. -/
def Settled (m : GlobalContextMap V) (key : String) (v : V) : Prop :=
  ∃ n, m.node key = some n ∧ n.data = v ∧ n.updateTime m.now = n

/-- **A write leaves no trace** only where the value is there already. -/
theorem SameEntries.set_iff (h : SameEntries keys m m') {key : String} (hkey : key ∉ keys) (v : V)
    (ttl : ℕ) : SameEntries keys m (m'.addOrUpdate key v ttl) ↔ Settled m key v := by
  have hold : m'.node key = m.node key := (h.node key).resolve_right fun hno => hkey hno.1
  have hset : m'.addOrUpdate key v ttl = ⟨m.now, Function.update m'.node key
      ((StoreOp.set key v ttl).nodeAfter m.now (m.node key))⟩ := by
    rw [← hold, ← h.now]
    exact handle_snd (.set key v ttl) m'
  rw [hset]
  constructor
  · rintro ⟨-, hnode⟩
    have hafter := (hnode key).resolve_right fun hno => hkey hno.1
    dsimp only at hafter
    rw [Function.update_self] at hafter
    cases hn : m.node key with
    | none =>
      rw [hn] at hafter
      cases hafter
    | some n =>
      rw [hn] at hafter
      have heq : { n.updateTime m.now with data := v } = n := Option.some.inj hafter
      have hdata : v = n.data := congrArg Node.data heq
      refine ⟨n, hn, hdata.symm, ?_⟩
      rw [hdata] at heq
      exact heq
  · rintro ⟨n, hn, rfl, htime⟩
    refine ⟨rfl, fun k => ?_⟩
    dsimp only
    by_cases hk : k = key
    · subst hk
      rw [Function.update_self, hn]
      exact .inl (congrArg some htime)
    · rw [Function.update_of_ne hk]
      exact h.node k

end GlobalContext

namespace Request

variable {E : Externals} {c : Call E} {generated : String} {m : GlobalContextMap (Any E)}

namespace Handler

/-- The keys that `handleClientSaleRequest` reads. -/
def saleReads : List String := ["testnet", contextKeySupernode, contextKeyFullSupernodeList]

/-- The payment id of a request. -/
def salePaymentId (req : SaleRequest) (generated : String) : String :=
  if req.paymentId = "" then generated else req.paymentId

/-- No auth sample of the right size is built. -/
def SampleFails (fsl : SampleSource) (paymentId : String) : Prop :=
  ∀ sample, fsl.buildAuthSample fsl.getBlockchainBasedListMaxBlockNumber paymentId = some sample →
    sample.length ≠ authSampleSize

/-- The list of all supernodes is asked for a sample: the entries read before are in order. -/
def AsksForSample (m : GlobalContextMap (Any E)) (fsl : SampleSource) : Prop :=
  (∃ testnet, m.lookup "testnet" = some (.bool testnet)) ∧
    (∃ supernode, (m.lookup contextKeySupernode).getD (.supernode none) = .supernode supernode) ∧
    m.lookup contextKeyFullSupernodeList = some (.fsl (some fsl))

/-- **A request that is refused after its details are stored**, under `key`. -/
def Refused (c : Call E) (generated : String) (m : GlobalContextMap (Any E))
    (key details : String) : Prop :=
  ∃ req fsl, E.getSaleRequest c.input = some req ∧ req.amount ≠ 0 ∧ AsksForSample m fsl ∧
    details = req.saleDetails ∧ details ≠ "" ∧
    key = ContextKey.saleDetails.of (salePaymentId req generated) ∧
    SampleFails fsl (salePaymentId req generated)

/-- The global context after the reads. -/
def saleSeen (m : GlobalContextMap (Any E)) : GlobalContextMap (Any E) :=
  ((m.touch "testnet").touch contextKeySupernode).touch contextKeyFullSupernodeList

theorem sameEntries_saleSeen (m : GlobalContextMap (Any E)) :
    SameEntries saleReads m (saleSeen m) :=
  (((SameEntries.refl saleReads m).touch (by simp [saleReads])).touch (by simp [saleReads])).touch
    (by simp [saleReads])

/-- An error, if there is one, leaves the entries of the global context as they are. -/
def LeavesNoTrace (c : Call E) (generated : String) (m : GlobalContextMap (Any E)) : Prop :=
  ∀ r, ((handleClientSaleRequest c generated).run handle m).1 = .ok r → r.status = .error →
    SameEntries saleReads m ((handleClientSaleRequest c generated).run handle m).2

/-- Without a sample the sale is refused, and nothing more is written. -/
theorem run_storeSale_of_fails (req : SaleRequest) {fsl : SampleSource} {paymentId : String}
    (h : SampleFails fsl paymentId) (s : GlobalContextMap (Any E)) :
    (handleClientSaleRequest.storeSale c req fsl paymentId).run handle s
      = (handleClientSaleRequest.cantBuildAuthSample c).run handle s := by
  rw [handleClientSaleRequest.storeSale]
  dsimp only
  cases hsample : fsl.buildAuthSample fsl.getBlockchainBasedListMaxBlockNumber paymentId with
  | none => rfl
  | some sample =>
    dsimp only
    rw [if_pos (h sample hsample)]

/-- With a sample the sale goes on. -/
theorem run_storeSale_of_not_fails (req : SaleRequest) {fsl : SampleSource} {paymentId : String}
    (h : ¬ SampleFails fsl paymentId) (s : GlobalContextMap (Any E)) :
    ∃ r, ((handleClientSaleRequest.storeSale c req fsl paymentId).run handle s).1 = .ok r ∧
      r.status = .forward := by
  rw [SampleFails] at h
  push Not at h
  obtain ⟨sample, hsample, hlength⟩ := h
  rw [handleClientSaleRequest.storeSale]
  dsimp only
  rw [hsample]
  dsimp only
  rw [if_neg (not_not.mpr hlength)]
  exact ⟨_, rfl, rfl⟩

/-- The run of a request that asks for a sample. -/
theorem run_sale_of_asks {req : SaleRequest} {fsl : SampleSource}
    (hreq : E.getSaleRequest c.input = some req) (hamount : req.amount ≠ 0)
    (hasks : AsksForSample m fsl) :
    (handleClientSaleRequest c generated).run handle m =
      (handleClientSaleRequest.storeSale c req fsl (salePaymentId req generated)).run handle
        (if req.saleDetails ≠ "" then
          (saleSeen m).addOrUpdate (ContextKey.saleDetails.of (salePaymentId req generated))
            (.str req.saleDetails) saleTtl
        else saleSeen m) := by
  obtain ⟨⟨testnet, htestnet⟩, ⟨supernode, hsupernode⟩, hfsl⟩ := hasks
  rw [handleClientSaleRequest, hreq]
  dsimp only
  rw [if_neg hamount]
  simp only [Prog.run_call, handle, GlobalContextMap.valueFor, GlobalContextMap.lookup_touch,
    htestnet, hsupernode, hfsl, Option.getD_some, Any.toBool?, Any.toSupernode?, Any.toFsl?]
  split
  · rfl
  · rfl

/-- The value of an entry that is not the default of its read. -/
theorem lookup_of_getD {key : String} {v d : Any E} (h : (m.lookup key).getD d = v) (hne : v ≠ d) :
    m.lookup key = some v := by
  cases hlookup : m.lookup key with
  | none =>
    rw [hlookup] at h
    exact absurd h.symm hne
  | some v' =>
    rw [hlookup] at h
    exact congrArg some h

/-- An entry that is not of its type ends the call in a fault. -/
theorem run_sale_of_not_asks {req : SaleRequest} (hreq : E.getSaleRequest c.input = some req)
    (hamount : req.amount ≠ 0) (hasks : ¬ ∃ fsl, AsksForSample m fsl) :
    ∃ f, ((handleClientSaleRequest c generated).run handle m).1 = .error f := by
  rw [handleClientSaleRequest, hreq]
  dsimp only
  rw [if_neg hamount]
  simp only [Prog.run_call, handle, GlobalContextMap.valueFor]
  cases htestnet : (m.lookup "testnet").getD .empty with
  | bool testnet =>
    simp only [Any.toBool?, Prog.run_call, handle, GlobalContextMap.valueFor,
      GlobalContextMap.lookup_touch]
    cases hsupernode : (m.lookup contextKeySupernode).getD (.supernode none) with
    | supernode supernode =>
      simp only [Any.toSupernode?, Prog.run_call, handle, GlobalContextMap.valueFor,
        GlobalContextMap.lookup_touch]
      cases hfsl : (m.lookup contextKeyFullSupernodeList).getD (.fsl none) with
      | fsl fsl =>
        cases fsl with
        | none => exact ⟨_, rfl⟩
        | some fsl =>
          exact absurd ⟨fsl, ⟨testnet, lookup_of_getD htestnet (by simp)⟩, ⟨supernode, hsupernode⟩,
            lookup_of_getD hfsl (by simp)⟩ hasks
      | _ => exact ⟨_, rfl⟩
    | _ => exact ⟨_, rfl⟩
  | _ => exact ⟨_, rfl⟩

/-- A request that is refused after its details are stored leaves them there. -/
theorem run_sale_of_refused {key details : String} (h : Refused c generated m key details) :
    (∃ r, ((handleClientSaleRequest c generated).run handle m).1 = .ok r ∧ r.status = .error) ∧
      ((handleClientSaleRequest c generated).run handle m).2
        = (saleSeen m).addOrUpdate key (.str details) saleTtl := by
  obtain ⟨req, fsl, hreq, hamount, hasks, rfl, hdetails, rfl, hfails⟩ := h
  rw [run_sale_of_asks hreq hamount hasks, run_storeSale_of_fails req hfails, if_pos hdetails]
  exact ⟨⟨_, rfl, rfl⟩, rfl⟩

/-- Any other error leaves no trace. -/
theorem leavesNoTrace_of_not_refused (h : ∀ key details, ¬ Refused c generated m key details) :
    LeavesNoTrace c generated m := by
  intro r hr herror
  cases hreq : E.getSaleRequest c.input with
  | none =>
    rw [handleClientSaleRequest, hreq]
    exact SameEntries.refl saleReads m
  | some req =>
    by_cases hamount : req.amount = 0
    · rw [handleClientSaleRequest, hreq]
      dsimp only
      rw [if_pos hamount]
      exact SameEntries.refl saleReads m
    · by_cases hasks : ∃ fsl, AsksForSample m fsl
      · obtain ⟨fsl, hasks⟩ := hasks
        rw [run_sale_of_asks hreq hamount hasks] at hr ⊢
        by_cases hfails : SampleFails fsl (salePaymentId req generated)
        · -- the sample fails, so there were no details to store
          have hdetails : ¬ req.saleDetails ≠ "" := fun hdetails =>
            h _ _ ⟨req, fsl, hreq, hamount, hasks, rfl, hdetails, rfl, hfails⟩
          rw [run_storeSale_of_fails req hfails, if_neg hdetails]
          exact sameEntries_saleSeen m
        · obtain ⟨r', hr', hforward⟩ := run_storeSale_of_not_fails (c := c) req hfails
            (if req.saleDetails ≠ "" then
              (saleSeen m).addOrUpdate (ContextKey.saleDetails.of (salePaymentId req generated))
                (.str req.saleDetails) saleTtl
            else saleSeen m)
          rw [hr'] at hr
          cases hr
          rw [hforward] at herror
          cases herror
      · obtain ⟨fault, hfault⟩ := @run_sale_of_not_asks _ c generated m req hreq hamount hasks
        rw [hfault] at hr
        cases hr

/-- **An error leaves no trace** exactly when a request that is refused after its details are stored
finds them there already. -/
theorem leavesNoTrace_iff (c : Call E) (generated : String) (m : GlobalContextMap (Any E)) :
    LeavesNoTrace c generated m ↔
      ∀ key details, Refused c generated m key details → Settled m key (.str details) := by
  by_cases h : ∃ key details, Refused c generated m key details
  · obtain ⟨key, details, hrefused⟩ := h
    obtain ⟨⟨r, hr, herror⟩, hstore⟩ := run_sale_of_refused hrefused
    have hkey : key ∉ saleReads := by
      obtain ⟨req, fsl, -, -, -, -, -, rfl, -⟩ := hrefused
      simp [saleReads, contextKeySupernode, contextKeyFullSupernodeList, ContextKey.of_ne]
    have hiff := (sameEntries_saleSeen m).set_iff hkey (.str details) saleTtl
    constructor
    · intro htrace key' details' hrefused'
      -- there is one key and one text only
      obtain ⟨req, fsl, hreq, -, -, rfl, -, rfl, -⟩ := hrefused
      obtain ⟨req', fsl', hreq', -, -, rfl, -, rfl, -⟩ := hrefused'
      obtain rfl := Option.some.inj (hreq.symm.trans hreq')
      have hsame := htrace r hr herror
      rw [hstore] at hsame
      exact hiff.mp hsame
    · intro hsettled r' _ _
      rw [hstore]
      exact hiff.mpr (hsettled key details hrefused)
  · push Not at h
    exact iff_of_true (leavesNoTrace_of_not_refused h)
      fun key details hrefused => absurd hrefused (h key details)

/-- A request for a payment that is running, with other details. -/
def sampleRefusing : Externals :=
  { sampleExternals with getSaleRequest := fun _ => some ⟨"", "tea", "payment", 1⟩ }

def sampleRefusingCall : Call sampleRefusing :=
  ⟨"", ⟨.empty, ""⟩, fun _ => none, ⟨[], [], [], fun _ => ()⟩⟩

/-- The details of a payment, and a list of supernodes that gives no sample. -/
def sampleRunning : GlobalContextMap (Any sampleRefusing) :=
  ⟨0, Function.update (Function.update (Function.update (fun _ => none)
    "testnet" (some ⟨.bool true, 0, none⟩))
    contextKeyFullSupernodeList (some ⟨.fsl (some ⟨100, fun _ _ => none⟩), 0, none⟩))
    (ContextKey.saleDetails.of "payment") (some ⟨.str "coffee", saleTtl, some saleTtl⟩)⟩

/-- The sale is refused, and the details of the running payment are replaced. -/
theorem sampleRunning_not_leavesNoTrace :
    ¬ LeavesNoTrace sampleRefusingCall "" sampleRunning := by
  intro htrace
  have hrefused : Refused sampleRefusingCall "" sampleRunning (ContextKey.saleDetails.of "payment")
      "tea" :=
    ⟨⟨"", "tea", "payment", 1⟩, ⟨100, fun _ _ => none⟩, rfl, by decide,
      ⟨⟨true, rfl⟩, ⟨none, rfl⟩, rfl⟩, rfl, by decide, rfl, fun sample h => by cases h⟩
  obtain ⟨⟨r, hr, herror⟩, hstore⟩ := run_sale_of_refused hrefused
  have hsame := congrFun (htrace r hr herror).lookup (ContextKey.saleDetails.of "payment")
  have hbefore : sampleRunning.lookup (ContextKey.saleDetails.of "payment")
      = some (.str "coffee") := rfl
  rw [hstore, GlobalContextMap.lookup_addOrUpdate, Function.update_self, hbefore] at hsame
  have htexts := Any.str.inj (Option.some.inj hsame)
  exact absurd htexts (by decide)

end Handler

end Request
