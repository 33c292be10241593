/-
# What a reader reports

A `pull` reads the same value with `JsonDeserializationErrors` and without, unless it has a
duplicate to report and nothing to report it to.  What it reports goes by the place where it starts
alone: `Behaves` says so of one computation, with the value, the errors and the place after it.
`Reads` adds what the errors say (there are none just if the JSON is as it should be, and no
duplicates but in sets), that the record and the member are put back, and what is known of the
value.  The readers of a member, of the elements of an array or of a set and of the entries of a map
have a lemma each.
-/
import GraftSupernode.Reflector

namespace Reflector

variable {F : Floats} {α β : Type} {P : Platform F}

/-- What comes of a reader that is at the place and reports the errors `errs`: the first one that is
thrown, or the value `a`, all the errors and the next place. -/
def outcome (a : α) (errs : List JsonDeserializationError) (next : Place) (e : Errors) :
    Except Stop (α × Option Errors) :=
  match errs.find? fun err => e.throwOn err.kind with
  | some err => .error (.thrown err)
  | none => .ok (a, some { e with list := e.list ++ errs, place := next })

/-- The error is a duplicate in a set. -/
def JsonDeserializationError.isDuplicate (err : JsonDeserializationError) : Bool :=
  err.kind = .unexpectedDuplicate

/-- What comes of a reader that has the errors `errs` to report and nothing to report them to. -/
def silentOutcome (a : α) (errs : List JsonDeserializationError) :
    Except Stop (α × Option Errors) :=
  if errs.any JsonDeserializationError.isDuplicate then .error .nullDereference else .ok (a, none)

/-- Without a duplicate, the errors do not matter. -/
theorem silentOutcome_of_forall {a : α} {errs : List JsonDeserializationError}
    (h : ∀ err ∈ errs, err.isDuplicate = false) : silentOutcome a errs = .ok (a, none) :=
  if_neg (by simpa using h)

/-- **What a reader does**: its value is `a`, with errors to report to or without, if there is no
duplicate; from a place it reports `errs` and goes to `next`. -/
structure Behaves (m : Reader α) (a : α) (errs : Place → List JsonDeserializationError)
    (next : Place → Place) : Prop where
  silent : ∀ p, m none = silentOutcome a (errs p)
  outcome : ∀ e : Errors, m (some e) = outcome a (errs e.place) (next e.place) e

/-- A value that is at hand reports nothing. -/
theorem behaves_pure (a : α) : Behaves (pure a) a (fun _ => []) id where
  silent _ := rfl
  outcome e := by
    show Except.ok (a, some e) = _
    simp [outcome]

/-- One reader after the other reports the errors of both, in their order. -/
theorem Behaves.bind {m : Reader α} {f : α → Reader β} {a : α} {b : β}
    {errs errs' : Place → List JsonDeserializationError} {next next' : Place → Place}
    (h : Behaves m a errs next) (h' : Behaves (f a) b errs' next') :
    Behaves (m >>= f) b (fun p => errs p ++ errs' (next p)) (next' ∘ next) where
  silent p := by
    show (m none >>= fun s => f s.1 s.2) = _
    rw [h.silent p]
    unfold silentOutcome
    rw [List.any_append]
    cases (errs p).any JsonDeserializationError.isDuplicate with
    | true => rfl
    | false =>
      show f a none = _
      rw [h'.silent (next p)]
      rfl
  outcome e := by
    show (m (some e) >>= fun s => f s.1 s.2) = _
    rw [h.outcome]
    unfold Reflector.outcome
    rw [List.find?_append]
    cases hfind : (errs e.place).find? fun err => e.throwOn err.kind with
    | some err => rfl
    | none =>
      show f a (some { e with list := e.list ++ errs e.place, place := next e.place }) = _
      rw [h'.outcome]
      simp [Reflector.outcome, List.append_assoc]

/-- A new place reports nothing. -/
theorem behaves_setPlace (f : Place → Place) : Behaves (setPlace f) () (fun _ => []) f where
  silent _ := rfl
  outcome e := by simp [outcome, setPlace, modify, modifyGet, MonadStateOf.modifyGet,
    StateT.modifyGet, pure, Except.pure]

/-- The error at a place. -/
def errorAt (kind : ErrorKind) (expected actual : JsonType) (p : Place) :
    JsonDeserializationError :=
  ⟨kind, expected, actual, p.record, p.member, p.index⟩

/-- An error is in the list, or it is thrown. -/
theorem report_some (kind : ErrorKind) (expected actual : JsonType) (e : Errors) :
    report kind expected actual (some e)
      = outcome () [errorAt kind expected actual e.place] e.place e := by
  let err : JsonDeserializationError := errorAt kind expected actual e.place
  show (if e.throwOn kind then throw (.thrown err) else pure () : Reader Unit)
    (some { e with list := e.list ++ [err] }) = _
  unfold outcome
  cases hthrow : e.throwOn kind
  · have hfind : [err].find? (fun err => e.throwOn err.kind) = none := by
      simp [err, errorAt, hthrow]
    rw [hfind]
    rfl
  · have hfind : [err].find? (fun err => e.throwOn err.kind) = some err := by
      simp [err, errorAt, hthrow]
    rw [hfind]
    rfl

/-- An error that is no duplicate is reported at the place. -/
theorem behaves_report {kind : ErrorKind} (hkind : kind ≠ .unexpectedDuplicate)
    (expected actual : JsonType) :
    Behaves (report kind expected actual) () (fun p => [errorAt kind expected actual p]) id where
  silent p := by
    rw [silentOutcome_of_forall]
    · rfl
    · simp [JsonDeserializationError.isDuplicate, errorAt, hkind]
  outcome := report_some kind expected actual

/-- A duplicate is reported at the place, if there are errors to report it to. -/
theorem behaves_reportUnexpectedDuplicate :
    Behaves reportUnexpectedDuplicate ()
      (fun p => [errorAt .unexpectedDuplicate .array .array p]) id where
  silent _ := rfl
  outcome := report_some .unexpectedDuplicate .array .array

/-- A member is read at its own place; then the reader is at the old member again. -/
theorem behaves_pullMember {name : String} {pullValue : Json F → Reader β} {old : β}
    {members : List (String × Json F)} {v : Json F} {b : β}
    {errs : Place → List JsonDeserializationError} {next : Place → Place}
    (hfind : findMember name members = some v) (h : Behaves (pullValue v) b errs next) :
    Behaves (pullMember name pullValue old members) b
      (fun p => errs { p with member := some name })
      (fun p => { next { p with member := some name } with member := p.member }) where
  silent p := by
    unfold pullMember
    rw [hfind]
    show (pullValue v none >>= fun s => _) = _
    rw [h.silent { p with member := some name }]
    unfold silentOutcome
    cases (errs { p with member := some name }).any JsonDeserializationError.isDuplicate <;> rfl
  outcome e := by
    unfold pullMember
    rw [hfind]
    show (pullValue v (some { e with place := { e.place with member := some name } })
      >>= fun s => _) = _
    rw [h.outcome]
    unfold Reflector.outcome
    cases (errs { e.place with member := some name }).find? fun err => e.throwOn err.kind <;> rfl

/-- **A reader that does its work**: it reports nothing just if `ok` holds and no duplicate unless
`sets` does, the record of what it reports is the one where it starts, it puts the record and the
member back, and its value is as `good` says. -/
def Reads (m : Reader α) (ok sets : Prop) (good : α → Prop) : Prop :=
  ∃ a errs next, Behaves m a errs next
    ∧ (∀ p, (next p).record = p.record ∧ (next p).member = p.member)
    ∧ (∀ p, ∀ err ∈ errs p, err.record = p.record ∧ (err.isDuplicate → sets))
    ∧ (∀ p, errs p = [] ↔ ok) ∧ good a

/-- A value that is at hand is read. -/
theorem reads_pure {a : α} {sets : Prop} {good : α → Prop} (h : good a) :
    Reads (pure a) True sets good :=
  ⟨a, _, _, behaves_pure a, fun _ => ⟨rfl, rfl⟩, by simp, fun _ => by simp, h⟩

/-- One reader after the other reads when both do. -/
theorem Reads.bind {m : Reader α} {f : α → Reader β} {ok ok' sets : Prop} {good : α → Prop}
    {good' : β → Prop} (h : Reads m ok sets good)
    (h' : ∀ a, good a → Reads (f a) ok' sets good') : Reads (m >>= f) (ok ∧ ok') sets good' := by
  obtain ⟨a, errs, next, hm, hplace, hrecord, herrs, ha⟩ := h
  obtain ⟨b, errs', next', hf, hplace', hrecord', herrs', hb⟩ := h' a ha
  refine ⟨b, _, _, hm.bind hf, fun p => ?_, fun p err herr => ?_, fun p => ?_, hb⟩
  · exact ⟨(hplace' _).1.trans (hplace p).1, (hplace' _).2.trans (hplace p).2⟩
  · rcases List.mem_append.mp herr with herr | herr
    · exact hrecord p err herr
    · rw [← (hplace p).1]
      exact hrecord' (next p) err herr
  · rw [List.append_eq_nil_iff, herrs, herrs']

/-- What is read under a condition is read under an equivalent one. -/
theorem reads_of_iff {m : Reader α} (ok : Prop) {ok' sets : Prop} {good : α → Prop}
    (hok : ok ↔ ok') (h : Reads m ok sets good) : Reads m ok' sets good := by
  obtain ⟨a, errs, next, hm, hplace, hrecord, herrs, ha⟩ := h
  exact ⟨a, errs, next, hm, hplace, hrecord, fun p => (herrs p).trans hok, ha⟩

/-- The condition may be replaced by an equivalent one, and what is known of the value by less. -/
theorem Reads.imp {m : Reader α} {ok ok' sets : Prop} {good good' : α → Prop}
    (h : Reads m ok sets good) (hok : ok ↔ ok') (hgood : ∀ a, good a → good' a) :
    Reads m ok' sets good' := by
  obtain ⟨a, errs, next, hm, hplace, hrecord, herrs, ha⟩ := reads_of_iff ok hok h
  exact ⟨a, errs, next, hm, hplace, hrecord, herrs, hgood a ha⟩

/-- More may be duplicates. -/
theorem Reads.mono {m : Reader α} {ok sets sets' : Prop} {good : α → Prop}
    (h : Reads m ok sets good) (hsets : sets → sets') : Reads m ok sets' good := by
  obtain ⟨a, errs, next, hm, hplace, hrecord, herrs, ha⟩ := h
  exact ⟨a, errs, next, hm, hplace,
    fun p err herr => (hrecord p err herr).imp_right fun h hdup => hsets (h hdup), herrs, ha⟩

/-- The value that a reader reads when no error is thrown. -/
def valueOf (m : Reader α) (default : α) : α :=
  match m (some .init) with
  | .ok (a, _) => a
  | .error _ => default

/-- The value of a reader is what it reads. -/
theorem Reads.valueOf {m : Reader α} {ok sets : Prop} {good : α → Prop} (h : Reads m ok sets good)
    (default : α) : Reads m ok sets fun a => good a ∧ a = valueOf m default := by
  obtain ⟨a, errs, next, hm, hplace, hrecord, herrs, ha⟩ := h
  refine ⟨a, errs, next, hm, hplace, hrecord, herrs, ha, ?_⟩
  have hfind : (errs Errors.init.place).find? (fun err => Errors.init.throwOn err.kind) = none :=
    List.find?_eq_none.mpr fun _ _ => Bool.false_ne_true
  unfold Reflector.valueOf
  rw [hm.outcome .init]
  unfold outcome
  rw [hfind]

/-- The index is no part of what is put back. -/
theorem reads_setIndex (index : Option ℕ) {sets : Prop} :
    Reads (setPlace fun p => { p with index := index }) True sets fun _ => True :=
  ⟨(), _, _, behaves_setPlace _, fun _ => ⟨rfl, rfl⟩, by simp, fun _ => by simp, trivial⟩

/-- One error is reported, and the old value stays. -/
theorem Behaves.reads_return {m : Reader Unit} {kind : ErrorKind} {expected actual : JsonType}
    (h : Behaves m () (fun p => [errorAt kind expected actual p]) id) (old : α) {ok sets : Prop}
    {good : α → Prop} (hok : ¬ ok) (hsets : kind = .unexpectedDuplicate → sets) (hgood : good old) :
    Reads (do m; return old) ok sets good := by
  refine ⟨old, _, _, h.bind (behaves_pure old), fun _ => ⟨rfl, rfl⟩, fun p err herr => ?_,
    fun p => ?_, hgood⟩
  · rw [List.append_nil] at herr
    rw [List.mem_singleton.mp herr]
    exact ⟨rfl, fun hdup => hsets (of_decide_eq_true hdup)⟩
  · simp [hok]

/-- JSON that is not as it should be is reported, and the old value stays. -/
theorem reads_report {kind : ErrorKind} (hkind : kind ≠ .unexpectedDuplicate)
    (expected actual : JsonType) (old : α) {ok sets : Prop} {good : α → Prop} (hok : ¬ ok)
    (hgood : good old) : Reads (do report kind expected actual; return old) ok sets good :=
  (behaves_report hkind expected actual).reads_return old hok (fun h => absurd h hkind) hgood

/-- A member that is not there keeps its value. -/
theorem reads_pullMember {name : String} {pullValue : Json F → Reader β} {old : β}
    {members : List (String × Json F)} {ok : Json F → Prop} {sets : Prop}
    {good : Json F → β → Prop} (h : ∀ v, Reads (pullValue v) (ok v) sets (good v)) :
    Reads (pullMember name pullValue old members) (∀ v, findMember name members = some v → ok v)
      sets fun b => (findMember name members = none → b = old)
        ∧ ∀ v, findMember name members = some v → good v b := by
  cases hfind : findMember name members with
  | none =>
    unfold pullMember
    rw [hfind]
    exact (reads_pure (by simp)).imp (by simp) fun _ h => h
  | some v =>
    obtain ⟨b, errs, next, hm, hplace, hrecord, herrs, hb⟩ := h v
    refine ⟨b, _, _, behaves_pullMember hfind hm, fun p => ⟨?_, rfl⟩, fun p => ?_, fun p => ?_, ?_⟩
    · exact (hplace { p with member := some name }).1
    · exact hrecord { p with member := some name }
    · simpa using herrs { p with member := some name }
    · simpa using hb

/-- Every element of an array is read, and each by itself. -/
theorem reads_pullItems {pullItem : Json F → Reader α} {ok : Json F → Prop} {sets : Prop}
    {good : Json F → α → Prop} (h : ∀ v, Reads (pullItem v) (ok v) sets (good v)) (i : ℕ)
    (l : List (Json F)) :
    Reads (pullItems pullItem i l) (∀ v ∈ l, ok v) sets fun as => List.Forall₂ good l as := by
  induction l generalizing i with
  | nil => exact (reads_pure List.Forall₂.nil).imp (by simp) fun _ h => h
  | cons v l ih =>
    refine reads_of_iff (True ∧ ok v ∧ (∀ w ∈ l, ok w) ∧ True) (by simp) ?_
    refine (reads_setIndex (some i)).bind fun _ _ => ?_
    refine (h v).bind fun a ha => ?_
    refine (ih (i + 1)).bind fun as has => ?_
    exact reads_pure (List.Forall₂.cons ha has)

/-! ## Sets -/

/-- Each element is new when it is put into the set. -/
def AllNew (emplace : α → List α → Option (List α)) : List α → List α → Prop
  | [], _ => True
  | a :: as, s => ∃ s', emplace a s = some s' ∧ AllNew emplace as s'

/-- The elements are put into the set one after the other; those that are there stay. -/
def emplaceAll (emplace : α → List α → Option (List α)) : List α → List α → List α
  | [], s => s
  | a :: as, s => emplaceAll emplace as ((emplace a s).getD s)

/-- An element that is not new is reported. -/
theorem reads_insertElement (emplace : α → List α → Option (List α)) (a : α) (s : List α) :
    Reads (insertElement emplace a s) (emplace a s).isSome (∃ b t, emplace b t = none)
      fun s' => s' = (emplace a s).getD s := by
  unfold insertElement
  cases h : emplace a s with
  | none =>
    exact behaves_reportUnexpectedDuplicate.reads_return s (by simp) (fun _ => ⟨a, s, h⟩) rfl
  | some s' =>
    have hpure : Reads (pure s') True (∃ b t, emplace b t = none) fun t => t = s' := reads_pure rfl
    exact hpure.imp (by simp) fun _ h => h

/-- The elements of a set are read one after the other, and the values are put into it. -/
theorem reads_pullElements {emplace : α → List α → Option (List α)} {pullItem : Json F → Reader α}
    {ok : Json F → Prop} {sets : Prop} {value : Json F → α}
    (h : ∀ v, Reads (pullItem v) (ok v) sets fun a => a = value v)
    (hsets : (∃ b t, emplace b t = none) → sets) (i : ℕ) (l : List (Json F)) (s : List α) :
    Reads (pullElements emplace pullItem i l s)
      ((∀ v ∈ l, ok v) ∧ AllNew emplace (l.map value) s) sets
      fun s' => s' = emplaceAll emplace (l.map value) s := by
  induction l generalizing i s with
  | nil =>
    have hpure : Reads (pure s) True sets fun t => t = s := reads_pure rfl
    exact hpure.imp (by simp [AllNew]) fun _ h => h
  | cons v l ih =>
    have hnew : (True ∧ ok v ∧ (emplace (value v) s).isSome ∧ (∀ w ∈ l, ok w)
          ∧ AllNew emplace (l.map value) ((emplace (value v) s).getD s)) ↔
        (∀ w ∈ v :: l, ok w) ∧ AllNew emplace ((v :: l).map value) s := by
      rw [List.forall_mem_cons, List.map_cons, AllNew]
      cases emplace (value v) s with
      | none => simp
      | some s' => simp [and_assoc]
    refine reads_of_iff _ hnew ?_
    refine (reads_setIndex (some i)).bind fun _ _ => ?_
    refine (h v).bind fun a ha => ?_
    subst ha
    refine ((reads_insertElement emplace (value v) s).mono hsets).bind fun s' hs' => ?_
    subst hs'
    exact ih (i + 1) _

/-- Elements that are put at the end of a set come in their order. -/
theorem emplaceAll_of_pairwise {emplace : α → List α → Option (List α)} {r : α → α → Prop}
    (hlast : ∀ a s, (∀ b ∈ s, r b a) → emplace a s = some (s ++ [a])) {as s : List α}
    (h : (s ++ as).Pairwise r) : emplaceAll emplace as s = s ++ as := by
  induction as generalizing s with
  | nil => rw [emplaceAll, List.append_nil]
  | cons a as ih =>
    have hbehind : ∀ b ∈ s, r b a := fun b hb =>
      (List.pairwise_append.mp h).2.2 b hb a List.mem_cons_self
    rw [List.append_cons] at h ⊢
    rw [emplaceAll, hlast a s hbehind]
    exact ih h

/-- An empty set takes elements in their order. -/
theorem emplaceAll_nil {emplace : α → List α → Option (List α)} {r : α → α → Prop}
    (hlast : ∀ a s, (∀ b ∈ s, r b a) → emplace a s = some (s ++ [a])) {as : List α}
    (h : as.Pairwise r) : emplaceAll emplace as [] = as := emplaceAll_of_pairwise hlast h

/-- What comes before no element is put at the end. -/
theorem orderedInsert_last {r : α → α → Prop} [DecidableRel r] {a : α} {s : List α}
    (h : ∀ b ∈ s, ¬ r a b) : s.orderedInsert r a = s ++ [a] := by
  induction s with
  | nil => rfl
  | cons b s ih =>
    obtain ⟨hfirst, hrest⟩ := List.forall_mem_cons.mp h
    rw [List.orderedInsert_of_not_le _ _ hfirst, ih hrest]
    rfl

variable {less : α → α → Bool}

/-- Equivalence goes both ways. -/
theorem equivalent_comm (less : α → α → Bool) (a b : α) :
    equivalent less a b = equivalent less b a := Bool.and_comm _ _

/-- What is behind all the elements of a set is put at its end. -/
theorem emplaceSet_last {a : α} {s : List α} (h : ∀ b ∈ s, less b a ∧ ¬ less a b) :
    emplaceSet less a s = some (s ++ [a]) := by
  have hnew : ¬ s.any (equivalent less a) := by
    rw [List.any_eq_true]
    rintro ⟨b, hb, heq⟩
    simp [equivalent, (h b hb).1] at heq
  rw [emplaceSet, if_neg hnew, orderedInsert_last fun b hb => (h b hb).2]

/-- What is before no element of a multiset is put at its end. -/
theorem emplaceMultiset_last {a : α} {s : List α} (h : ∀ b ∈ s, ¬ less a b) :
    emplaceMultiset less a s = some (s ++ [a]) := by
  rw [emplaceMultiset, orderedInsert_last h]

/-- The elements of a multiset are all new. -/
theorem allNew_emplaceMultiset (as s : List α) : AllNew (emplaceMultiset less) as s := by
  induction as generalizing s with
  | nil => trivial
  | cons a as ih => exact ⟨_, rfl, ih _⟩

/-- The elements of a set are all new just if none is equivalent to another one. -/
theorem allNew_emplaceSet_iff (as s : List α) :
    AllNew (emplaceSet less) as s ↔ (∀ a ∈ as, ∀ b ∈ s, ¬ equivalent less a b)
      ∧ as.Pairwise fun a b => ¬ equivalent less a b := by
  induction as generalizing s with
  | nil => simp [AllNew]
  | cons a as ih =>
    have hfirst : AllNew (emplaceSet less) (a :: as) s ↔ (∀ b ∈ s, ¬ equivalent less a b)
        ∧ AllNew (emplaceSet less) as (s.orderedInsert (fun a b => less a b) a) := by
      rw [AllNew, emplaceSet]
      split <;> simp_all
    rw [hfirst, ih, List.forall_mem_cons, List.pairwise_cons]
    simp only [List.mem_orderedInsert, forall_eq_or_imp, equivalent_comm less _ a]
    constructor
    · rintro ⟨ha, hbs, hpairs⟩
      exact ⟨⟨ha, fun b hb => (hbs b hb).2⟩, fun b hb => (hbs b hb).1, hpairs⟩
    · rintro ⟨⟨ha, hbs⟩, hab, hpairs⟩
      exact ⟨ha, fun b hb => ⟨hab b hb, hbs b hb⟩, hpairs⟩

/-! ## Entries -/

/-- A key above the others comes last. -/
theorem entries_assign {m : StdMap String β} {k : String} {v : β}
    (h : ∀ e ∈ m.entries, e.1 < k) : (assign m k v).entries = m.entries ++ [(k, v)] := by
  have hfilter : (m.entries.filter fun e => e.1 ≠ k) = m.entries :=
    List.filter_eq_self.mpr fun e he => decide_eq_true (h e he).ne
  show StdMap.insertEntry k v (m.entries.filter fun e => e.1 ≠ k) = _
  rw [hfilter]
  exact StdMap.insertEntry_last h

/-- The entries of an object are read one after the other.  If they have the keys of the entries
`es` in order, and the keys are behind those of the map, each is read into a new value. -/
theorem reads_pullEntries {fresh : β} {pullValue : β → Json F → Reader β} {ok : Json F → Prop}
    {sets : Prop} {good : β → Json F → β → Prop}
    (h : ∀ b v, Reads (pullValue b v) (ok v) sets (good b v)) (l : List (String × Json F))
    (m : StdMap String β) :
    Reads (pullEntries fresh pullValue l m) (∀ e ∈ l, ok e.2) sets fun m' =>
      ∀ es : List (String × β), ((m.entries ++ es).Pairwise fun e f => e.1 < f.1) →
        List.Forall₂ (fun e f => cStr e.1 = f.1 ∧ ∀ b, good fresh e.2 b → b = f.2) l es →
        m'.entries = m.entries ++ es := by
  induction l generalizing m with
  | nil =>
    have hpure : Reads (pure m) True sets fun m' => m' = m := reads_pure rfl
    refine hpure.imp (by simp) ?_
    rintro _ rfl es - hes
    rw [List.forall₂_nil_left_iff.mp hes, List.append_nil]
  | cons e l ih =>
    refine Reads.imp ?_ List.forall_mem_cons.symm fun _ hm' => hm'
    refine (h _ e.2).bind fun b hb => (ih (assign m (cStr e.1) b)).imp Iff.rfl ?_
    intro m' hm' es hsorted hes
    obtain ⟨f, es, ⟨hkey, hread⟩, htail, rfl⟩ := List.forall₂_cons_left_iff.mp hes
    have hbehind : ∀ g ∈ m.entries, g.1 < cStr e.1 := by
      intro g hg
      rw [hkey]
      exact (List.pairwise_append.mp hsorted).2.2 g hg f List.mem_cons_self
    have hnew : m.find (cStr e.1) = none :=
      StdMap.find_eq_none.mpr fun g hg => (hbehind g hg).ne
    have hentries : (assign m (cStr e.1) b).entries = m.entries ++ [f] := by
      rw [entries_assign hbehind, hkey, hread b (by rwa [hnew] at hb)]
    rw [hm' es ?_ htail, hentries, List.append_assoc]
    · rfl
    · rwa [hentries, List.append_assoc]

end Reflector
