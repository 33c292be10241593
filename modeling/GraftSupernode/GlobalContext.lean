/-
# The global context

`Context::Global` (`context.h`) over the table of `graft_utility.hpp`, taken as a
finite map from keys to nodes.  A node holds the stored `std::any`, its `ttl` and
the second `expires` at which a cleanup may drop it.  Three details of the table
are kept because handlers depend on them:

* every find-based access (`hasKey`, `valueFor`, an update) moves the expiry of the
  node it finds to `now + ttl`;
* `addOrUpdate` of a key that is present replaces the value only: the `ttl` given
  is used for new nodes;
* a `ttl` of zero stands for a node that never expires.

What a handler can see of the table is `lookup`; `lookup_handle` is the
simulation between the table and that plain map, in which time plays no role.
-/
import GraftSupernode.AtomicProgram

open AtomicProgram

namespace GlobalContext

variable {V : Type}

/-- `TSList::node`, without the list links: `expires = none` is `seconds::max()`. -/
structure Node (V : Type) where
  data : V
  ttl : ℕ
  expires : Option ℕ

/-- `node::update_time` at the second `now`. -/
def Node.updateTime (now : ℕ) (n : Node V) : Node V :=
  { n with expires := if n.ttl = 0 then none else some (now + n.ttl) }

/-- An access keeps the value. -/
@[simp] theorem Node.data_updateTime (now : ℕ) (n : Node V) :
    (n.updateTime now).data = n.data := rfl

/-- `node::expired` -/
def Node.expired (now : ℕ) (n : Node V) : Bool :=
  n.expires.any (· ≤ now)

/-- The node never expires. -/
def Node.Permanent (n : Node V) : Prop := n.ttl = 0 ∧ n.expires = none

/-- The node has a `ttl`, and expires at most that long after the second `now`. -/
def Node.Timed (now : ℕ) (n : Node V) : Prop :=
  0 < n.ttl ∧ ∃ e, n.expires = some e ∧ e ≤ now + n.ttl

section expiry

variable {n : Node V} {now now' : ℕ}

/-- A permanent value never expires. -/
theorem Node.Permanent.not_expired (h : n.Permanent) (now : ℕ) : n.expired now = false := by
  rw [expired, h.2, Option.any_none]

/-- An access and a new value leave a node permanent. -/
theorem Node.Permanent.access (h : n.Permanent) (now : ℕ) (d : V) :
    Node.Permanent { n.updateTime now with data := d } :=
  ⟨h.1, by rw [updateTime, if_pos h.1]⟩

/-- A value with a `ttl` is not permanent. -/
theorem Node.Timed.not_permanent (h : n.Timed now) : ¬ n.Permanent :=
  fun hp => absurd hp.1 h.1.ne'

/-- What expires in time from now on does so from a later time on, too. -/
theorem Node.Timed.mono (h : n.Timed now) (hle : now ≤ now') : n.Timed now' := by
  obtain ⟨hpos, e, he, hbound⟩ := h
  exact ⟨hpos, e, he, by omega⟩

/-- An access moves the expiry to `now + ttl`. -/
theorem Node.Timed.access (h : n.Timed now) (d : V) :
    Node.Timed now { n.updateTime now with data := d } :=
  ⟨h.1, now + n.ttl, by rw [updateTime, if_neg h.1.ne'], le_refl _⟩

/-- When the `ttl` has gone by since an access, the node is expired. -/
theorem Node.Timed.expired (h : n.Timed now) (hle : now + n.ttl ≤ now') :
    n.expired now' = true := by
  obtain ⟨-, e, he, hbound⟩ := h
  rw [Node.expired, he, Option.any_some, decide_eq_true_iff]
  omega

/-- A new node never expires or has its `ttl` to go. -/
theorem Node.updateTime_new (val : V) (ttl now : ℕ) :
    ttl = 0 ∧ ((⟨val, ttl, none⟩ : Node V).updateTime now).Permanent ∨
      ((⟨val, ttl, none⟩ : Node V).updateTime now).Timed now := by
  by_cases h : ttl = 0
  · exact .inl ⟨h, h, by rw [updateTime, if_pos h]⟩
  · exact .inr ⟨Nat.pos_of_ne_zero h, now + ttl, by rw [updateTime, if_neg h], le_refl _⟩

end expiry

/-- The table of the global context, with the second its clock shows. -/
structure GlobalContextMap (V : Type) where
  now : ℕ
  node : String → Option (Node V)

namespace GlobalContextMap

/-- The value stored under a key, whatever its expiry. -/
def lookup (m : GlobalContextMap V) (key : String) : Option V := (m.node key).map Node.data

/-- `TSList::findFirstOf`: a node that is found has its time updated. -/
def touch (m : GlobalContextMap V) (key : String) : GlobalContextMap V :=
  match m.node key with
  | none => m
  | some n => { m with node := Function.update m.node key (some (n.updateTime m.now)) }

/-- `TSHashtable::hasKey` -/
def hasKey (m : GlobalContextMap V) (key : String) : Bool × GlobalContextMap V :=
  ((m.node key).isSome, m.touch key)

/-- `TSHashtable::valueFor` -/
def valueFor (m : GlobalContextMap V) (key : String) (defval : V) : V × GlobalContextMap V :=
  ((m.lookup key).getD defval, m.touch key)

/-- `BucketType::addOrUpdate` -/
def addOrUpdate (m : GlobalContextMap V) (key : String) (val : V) (ttl : ℕ) :
    GlobalContextMap V :=
  match (m.touch key).node key with
  | none =>
    let n : Node V := ⟨val, ttl, none⟩
    { m with node := Function.update m.node key (some (n.updateTime m.now)) }
  | some n => { m with node := Function.update m.node key (some { n with data := val }) }

/-- `TSHashtable::remove` -/
def remove (m : GlobalContextMap V) (key : String) : GlobalContextMap V :=
  { m with node := Function.update m.node key none }

/-- `TSHashtable::cleanup`: the expired nodes of the visited buckets are dropped. -/
def cleanup (m : GlobalContextMap V) (visited : String → Bool) : GlobalContextMap V :=
  { m with node := fun key => (m.node key).filter fun n => !(visited key && n.expired m.now) }

/-- The clock moves on. -/
def tick (m : GlobalContextMap V) (seconds : ℕ) : GlobalContextMap V :=
  { m with now := m.now + seconds }

/-! ## Lookup after each operation -/

/-- An access changes no value. -/
@[simp] theorem lookup_touch (m : GlobalContextMap V) (key : String) :
    (m.touch key).lookup = m.lookup := by
  funext k
  unfold touch
  cases h : m.node key with
  | none => rfl
  | some n =>
    by_cases hk : k = key
    · subst hk; simp [lookup, h]
    · simp [lookup, Function.update_of_ne hk]

/-- There is a node just where there is a value. -/
@[simp] theorem isSome_node (m : GlobalContextMap V) (key : String) :
    (m.node key).isSome = (m.lookup key).isSome := by
  simp [lookup]

/-- What is stored is there. -/
@[simp] theorem lookup_addOrUpdate (m : GlobalContextMap V) (key : String) (val : V) (ttl : ℕ) :
    (m.addOrUpdate key val ttl).lookup = Function.update m.lookup key (some val) := by
  funext k
  unfold addOrUpdate
  cases h : (m.touch key).node key <;>
  · by_cases hk : k = key
    · subst hk; simp [lookup]
    · simp [lookup, Function.update_of_ne hk]

/-- What is removed is not there. -/
@[simp] theorem lookup_remove (m : GlobalContextMap V) (key : String) :
    (m.remove key).lookup = Function.update m.lookup key none := by
  funext k
  by_cases hk : k = key
  · subst hk; simp [lookup, remove]
  · simp [lookup, remove, Function.update_of_ne hk]

/-- Time changes no value. -/
@[simp] theorem lookup_tick (m : GlobalContextMap V) (seconds : ℕ) :
    (m.tick seconds).lookup = m.lookup := rfl

/-- A cleanup leaves the value of a key alone, or drops an entry that has expired. -/
theorem lookup_cleanup (m : GlobalContextMap V) (visited : String → Bool) (key : String) :
    (m.cleanup visited).lookup key = m.lookup key ∨
      (m.cleanup visited).lookup key = none ∧
        ∃ n, m.node key = some n ∧ n.expired m.now = true := by
  cases h : m.node key with
  | none => left; simp [lookup, cleanup, h]
  | some n =>
    by_cases hv : (visited key && n.expired m.now) = true
    · right
      simp only [Bool.and_eq_true] at hv
      exact ⟨by simp [lookup, cleanup, h, hv.1, hv.2], n, rfl, hv.2⟩
    · left
      rw [Bool.and_eq_true, not_and_or, Bool.not_eq_true, Bool.not_eq_true] at hv
      simpa [lookup, cleanup, h] using hv

end GlobalContextMap

/-! ## The operations a handler performs -/

/-- The atomic operations of `Context::Global`.  Writing through the proxy
(`ctx.global[key] = v`) is `set` with `ttl` zero. -/
inductive StoreOp (V : Type)
  | hasKey (key : String)
  | get (key : String) (defval : V)
  | set (key : String) (val : V) (ttl : ℕ)
  | remove (key : String)

/-- What an operation answers. -/
@[reducible] def StoreOp.Reply : StoreOp V → Type
  | .hasKey _ => Bool
  | .get _ _ => V
  | .set _ _ _ => Unit
  | .remove _ => Unit

/-- The operations on the table. -/
def handle : Meaning (StoreOp V) StoreOp.Reply (GlobalContextMap V)
  | .hasKey key, m => m.hasKey key
  | .get key defval, m => m.valueFor key defval
  | .set key val ttl, m => ((), m.addOrUpdate key val ttl)
  | .remove key, m => ((), m.remove key)

/-- The operations on a plain map. -/
def handleLookup : Meaning (StoreOp V) StoreOp.Reply (String → Option V)
  | .hasKey key, f => ((f key).isSome, f)
  | .get key defval, f => ((f key).getD defval, f)
  | .set key val _, f => ((), Function.update f key (some val))
  | .remove key, f => ((), Function.update f key none)

/-- **The table refines a plain map**: the operations answer the same and commute
with `lookup`, whatever the times and the `ttl`s are. -/
theorem lookup_handle (o : StoreOp V) (m : GlobalContextMap V) :
    (handle o m).1 = (handleLookup o m.lookup).1 ∧
      (handle o m).2.lookup = (handleLookup o m.lookup).2 := by
  cases o <;>
    simp [handle, handleLookup, GlobalContextMap.hasKey, GlobalContextMap.valueFor]

/-! A program on a plain map, one operation at a time. -/

section run

variable {α : Type*} (key : String) (f : String → Option V)

/-- `hasKey` tells the program whether there is a value. -/
theorem run_hasKey (k : Bool → Prog (StoreOp V) StoreOp.Reply α) :
    Prog.run handleLookup (.call (.hasKey key) k) f = (k (f key).isSome).run handleLookup f := rfl

/-- `get` gives the program the value, or the default. -/
theorem run_get (d : V) (k : V → Prog (StoreOp V) StoreOp.Reply α) :
    Prog.run handleLookup (.call (.get key d) k) f = (k ((f key).getD d)).run handleLookup f := rfl

/-- `set` stores the value. -/
theorem run_set (v : V) (ttl : ℕ) (k : Unit → Prog (StoreOp V) StoreOp.Reply α) :
    Prog.run handleLookup (.call (.set key v ttl) k) f
      = (k ()).run handleLookup (Function.update f key (some v)) := rfl

variable {key} {f} {q : Prog (StoreOp V) StoreOp.Reply α} {g : String → Option V}

/-- What is reached after `hasKey`. -/
theorem reaches_hasKey {k : Bool → Prog (StoreOp V) StoreOp.Reply α}
    (h : Prog.Reaches handleLookup q g (k (f key).isSome) f) :
    Prog.Reaches handleLookup q g (.call (.hasKey key) k) f := .call h

/-- What is reached after `get`. -/
theorem reaches_get {d : V} {k : V → Prog (StoreOp V) StoreOp.Reply α}
    (h : Prog.Reaches handleLookup q g (k ((f key).getD d)) f) :
    Prog.Reaches handleLookup q g (.call (.get key d) k) f := .call h

end run

/-! What every operation of a program satisfies, one operation at a time. -/

section every

variable {α : Type*} {P : StoreOp V → Prop} {key : String}

/-- A program that begins with `hasKey`. -/
theorem every_hasKey {k : Bool → Prog (StoreOp V) StoreOp.Reply α} (h : P (.hasKey key))
    (hk : ∀ b, (k b).Every P) : Prog.Every P (R := StoreOp.Reply) (.call (.hasKey key) k) := ⟨h, hk⟩

/-- A program that begins with `get`. -/
theorem every_get {d : V} {k : V → Prog (StoreOp V) StoreOp.Reply α} (h : P (.get key d))
    (hk : ∀ v, (k v).Every P) : Prog.Every P (R := StoreOp.Reply) (.call (.get key d) k) := ⟨h, hk⟩

/-- A program that begins with `set`. -/
theorem every_set {v : V} {ttl : ℕ} {k : Unit → Prog (StoreOp V) StoreOp.Reply α}
    (h : P (.set key v ttl)) (hk : (k ()).Every P) :
    Prog.Every P (R := StoreOp.Reply) (.call (.set key v ttl) k) := ⟨h, fun _ => hk⟩

end every

/-- The key of an operation. -/
def StoreOp.key : StoreOp V → String
  | .hasKey key => key
  | .get key _ => key
  | .set key _ _ => key
  | .remove key => key

/-- What an operation leaves under its key, at the second `now`. -/
def StoreOp.nodeAfter (now : ℕ) : StoreOp V → Option (Node V) → Option (Node V)
  | .hasKey _, old => old.map (Node.updateTime now)
  | .get _ _, old => old.map (Node.updateTime now)
  | .set _ val ttl, none => some ((⟨val, ttl, none⟩ : Node V).updateTime now)
  | .set _ val _, some n => some { n.updateTime now with data := val }
  | .remove _, _ => none

/-- Unless an operation removes its key, it leaves a node there with the time updated. -/
theorem StoreOp.nodeAfter_some {o : StoreOp V} (h : o ≠ .remove o.key) (now : ℕ) (n : Node V) :
    ∃ d, o.nodeAfter now (some n) = some { n.updateTime now with data := d } := by
  cases o with
  | hasKey key => exact ⟨n.data, rfl⟩
  | get key d => exact ⟨n.data, rfl⟩
  | set key val ttl => exact ⟨val, rfl⟩
  | remove key => exact absurd rfl h

/-- A node under a key that was absent is the one an operation has put there. -/
theorem StoreOp.nodeAfter_none {o : StoreOp V} {now : ℕ} {n : Node V}
    (h : o.nodeAfter now none = some n) :
    ∃ val ttl, o = .set o.key val ttl ∧ n = (⟨val, ttl, none⟩ : Node V).updateTime now := by
  cases o with
  | hasKey key => cases h
  | get key d => cases h
  | set key val ttl => exact ⟨val, ttl, rfl, (Option.some.inj h).symm⟩
  | remove key => cases h

/-- An access sets the time of the node. -/
theorem touch_eq (m : GlobalContextMap V) (key : String) :
    m.touch key
      = ⟨m.now, Function.update m.node key ((m.node key).map (Node.updateTime m.now))⟩ := by
  unfold GlobalContextMap.touch
  cases h : m.node key with
  | none =>
    rw [Option.map_none, ← h, Function.update_eq_self]
    simp only [h]
  | some n => rfl

/-- **What an operation does to the nodes**: it replaces the one under its key. -/
theorem handle_snd (o : StoreOp V) (m : GlobalContextMap V) :
    (handle o m).2
      = ⟨m.now, Function.update m.node o.key (o.nodeAfter m.now (m.node o.key))⟩ := by
  cases o with
  | hasKey key => exact touch_eq m key
  | get key d => exact touch_eq m key
  | remove key => rfl
  | set key val ttl =>
    show m.addOrUpdate key val ttl = _
    have hnode : (m.touch key).node key = (m.node key).map (Node.updateTime m.now) := by
      rw [touch_eq]
      exact Function.update_self _ _ _
    unfold GlobalContextMap.addOrUpdate
    rw [hnode, StoreOp.key]
    cases m.node key <;> rfl

/-- The key has an entry only without `ttl`, which never expires. -/
def NeverExpires (m : GlobalContextMap V) (key : String) : Prop :=
  ∀ n, m.node key = some n → n.Permanent

/-- An operation keeps an entry without `ttl` as it is. -/
theorem NeverExpires.handle {m : GlobalContextMap V} {key : String} {v : V}
    (h : NeverExpires m key) (hv : m.lookup key = some v) (o : StoreOp V) :
    NeverExpires (handle o m).2 key := by
  intro n hn
  rw [handle_snd] at hn
  by_cases hkey : key = o.key
  · subst hkey
    obtain ⟨n₀, hn₀, -⟩ := Option.map_eq_some_iff.mp hv
    replace hn : o.nodeAfter m.now (m.node o.key) = some n := by
      rwa [← Function.update_self o.key (o.nodeAfter m.now (m.node o.key)) m.node]
    rw [hn₀] at hn
    by_cases hremove : o = .remove o.key
    · rw [hremove] at hn
      cases hn
    · obtain ⟨d, hd⟩ := StoreOp.nodeAfter_some hremove m.now n₀
      obtain rfl := Option.some.inj (hd.symm.trans hn)
      exact (h n₀ hn₀).access m.now d
  · replace hn : Function.update m.node o.key _ key = some n := hn
    rw [Function.update_of_ne hkey] at hn
    exact h n hn

/-- A cleanup leaves what never expires. -/
theorem NeverExpires.cleanup {m : GlobalContextMap V} {key : String} (h : NeverExpires m key)
    (visited : String → Bool) : NeverExpires (m.cleanup visited) key := by
  intro n hn
  exact h n (Option.filter_eq_some_iff.mp hn).1

/-- A cleanup leaves what has not expired alone. -/
theorem lookup_cleanup_of_not_expired {m : GlobalContextMap V} {key : String}
    (h : ∀ n, m.node key = some n → n.expired m.now = false) (visited : String → Bool) :
    (m.cleanup visited).lookup key = m.lookup key := by
  rcases m.lookup_cleanup visited key with hsame | ⟨-, n, hn, hexpired⟩
  · exact hsame
  · rw [h n hn] at hexpired
    cases hexpired

/-- A program that never names a key behaves alike whatever is stored under it, and leaves it
alone. -/
theorem run_update_of_every {α : Type*} {p : Prog (StoreOp V) StoreOp.Reply α} {key : String}
    (hp : p.Every fun o => o.key ≠ key) (v : Option V) (f : String → Option V) :
    (p.run handleLookup (Function.update f key v)).1 = (p.run handleLookup f).1 ∧
      (p.run handleLookup (Function.update f key v)).2
        = Function.update (p.run handleLookup f).2 key v := by
  have hview : ∀ (o : StoreOp V) (f : String → Option V), o.key ≠ key →
      (handleLookup o f).1 = (handleLookup o (Function.update f key v)).1 ∧
        Function.update (handleLookup o f).2 key v
          = (handleLookup o (Function.update f key v)).2 := by
    intro o f ho
    cases o <;> simp only [StoreOp.key, ne_eq] at ho <;>
      simp [handleLookup, ho, Function.update_comm (Ne.symm ho)]
  obtain ⟨hreply, hstore⟩ := Prog.run_of_view hview hp f
  exact ⟨hreply.symm, hstore.symm⟩

/-- An operation leaves every other key alone. -/
theorem handleLookup_of_key_ne {o : StoreOp V} {key : String} (h : o.key ≠ key)
    (f : String → Option V) : (handleLookup o f).2 key = f key := by
  cases o with
  | hasKey k => rfl
  | get k d => rfl
  | set k v ttl => exact Function.update_of_ne (Ne.symm h) _ _
  | remove k => exact Function.update_of_ne (Ne.symm h) _ _

/-- The key that an operation writes. -/
def StoreOp.writes : StoreOp V → Option String
  | .set key _ _ => some key
  | .remove key => some key
  | .hasKey _ => none
  | .get _ _ => none

/-- `hasKey` writes nothing. -/
@[simp] theorem StoreOp.writes_hasKey (key : String) :
    (StoreOp.hasKey key : StoreOp V).writes = none := rfl

/-- `get` writes nothing. -/
@[simp] theorem StoreOp.writes_get (key : String) (d : V) : (StoreOp.get key d).writes = none := rfl

/-- `set` writes its key. -/
@[simp] theorem StoreOp.writes_set (key : String) (v : V) (ttl : ℕ) :
    (StoreOp.set key v ttl).writes = some key := rfl

/-- An operation changes no key but the one it writes. -/
theorem handleLookup_of_not_writes {o : StoreOp V} {key : String} (h : o.writes ≠ some key)
    (f : String → Option V) : (handleLookup o f).2 key = f key := by
  cases o with
  | hasKey k => rfl
  | get k d => rfl
  | set k v ttl => exact Function.update_of_ne (by simpa [StoreOp.writes, eq_comm] using h) _ _
  | remove k => exact Function.update_of_ne (by simpa [StoreOp.writes, eq_comm] using h) _ _

/-! ## What is stored -/

/-- Each value that is stored satisfies `G`, which may depend on its key. -/
def Stored (G : String → V → Prop) (m : GlobalContextMap V) : Prop :=
  ∀ key v, m.lookup key = some v → G key v

section stored

variable {G : String → V → Prop} {m : GlobalContextMap V}

/-- An operation that writes what satisfies `G` keeps it so. -/
theorem Stored.handle (h : Stored G m) {o : StoreOp V}
    (ho : ∀ key v ttl, o = .set key v ttl → G key v) : Stored G (handle o m).2 := by
  intro key v hv
  rw [(lookup_handle o m).2] at hv
  by_cases hw : o.writes = some key
  · cases o with
    | hasKey key' => cases hw
    | get key' d => cases hw
    | remove key' =>
      obtain rfl := Option.some.inj hw
      cases (Function.update_self _ _ _).symm.trans hv
    | set key' v' ttl =>
      obtain rfl := Option.some.inj hw
      simp only [handleLookup, Function.update_self, Option.some.injEq] at hv
      exact hv ▸ ho _ _ ttl rfl
  · rw [handleLookup_of_not_writes hw] at hv
    exact h key v hv

/-- A cleanup stores nothing. -/
theorem Stored.cleanup (h : Stored G m) (visited : String → Bool) :
    Stored G (m.cleanup visited) := by
  intro key v hv
  rcases m.lookup_cleanup visited key with hsame | ⟨hnone, -⟩
  · exact h key v (hsame.symm.trans hv)
  · cases hnone.symm.trans hv

end stored

end GlobalContext
