/-
# What is pushed is pulled again

`Ty.Conforms` is the JSON that a type is read of without an error, in the terms of JSON but for the
elements of a set, no two of which may be read as equivalent values: `pull` reports nothing just for
it.  A value that is pushed and pulled again is the same if none of its strings is cut
(`Ty.Readable`) and the maps that are pulled into are empty (`Ty.Blank`).
-/
import GraftSupernode.ReflectorErrors

namespace Reflector

variable {F : Floats} (P : Platform F)

/-! ## JSON of a type -/

/-- What the JSON of an element of a set is read as. -/
def Ty.element (t : Ty) (v : Json F) : t.Val F :=
  valueOf (t.pull P (P.localVar t) v) (P.localVar t)

mutual
/-- The JSON has the form of the type; what a structure has no member for can be anything, and a
member that is not there is left out. -/
def Ty.Conforms : Ty → Json F → Prop
  | .bool, v => ∃ b, v = .bool b
  | .integer _, v => ∃ n, v = .num n
  | .double, v => ∃ n, v = .num n
  | .float, v => ∃ n, v = .num n
  | .enum u, v => ∃ z, v = .num (.int z) ∧ u.expectedType.Fits z
  | .string, v => ∃ s, v = .str s
  | .charPtr, v => ∃ s, v = .str s
  | .vector t, v => ∃ l, v = .arr l ∧ ∀ w ∈ l, t.Conforms w
  | .set t, v => ∃ l, v = .arr l ∧ (∀ w ∈ l, t.Conforms w)
      ∧ (l.map (t.element P)).Pairwise fun a b => ¬ equivalent (P.less t) a b
  | .multiset t, v => ∃ l, v = .arr l ∧ ∀ w ∈ l, t.Conforms w
  | .map t, v => ∃ l, v = .obj l ∧ ∀ e ∈ l, t.Conforms e.2
  | .tuple ts, v => ∃ l, v = .arr l ∧ l.length = ts.size ∧ ts.Conforms l
  | .ptr t, v => v = .null ∨ t.Conforms v
  | .struct _ ms, v => ∃ l, v = .obj l ∧ ms.Conforms l
def Tys.Conforms : Tys → List (Json F) → Prop
  | .nil, _ => True
  | .cons _ _, [] => True
  | .cons t ts, v :: l => t.Conforms v ∧ ts.Conforms l
def Members.Conforms : Members → List (String × Json F) → Prop
  | .nil, _ => True
  | .cons name t ms, l => (∀ v, findMember name l = some v → t.Conforms v) ∧ ms.Conforms l
end

/-! ## Values that can be read back -/

/-- The names of the members. -/
def Members.names : Members → List String
  | .nil => []
  | .cons name _ ms => name :: ms.names

mutual
/-- There is a `std::set` in the type. -/
def Ty.HasSet : Ty → Prop
  | .set _ => True
  | .vector t => t.HasSet
  | .multiset t => t.HasSet
  | .map t => t.HasSet
  | .tuple ts => ts.HasSet
  | .ptr t => t.HasSet
  | .struct _ ms => ms.HasSet
  | _ => False
def Tys.HasSet : Tys → Prop
  | .nil => False
  | .cons t ts => t.HasSet ∨ ts.HasSet
def Members.HasSet : Members → Prop
  | .nil => False
  | .cons _ t ms => t.HasSet ∨ ms.HasSet
end

mutual
/-- No structure has two members of one name. -/
def Ty.WellFormed : Ty → Prop
  | .vector t => t.WellFormed
  | .set t => t.WellFormed
  | .multiset t => t.WellFormed
  | .map t => t.WellFormed
  | .tuple ts => ts.WellFormed
  | .ptr t => t.WellFormed
  | .struct _ ms => ms.names.Nodup ∧ ms.WellFormed
  | _ => True
def Tys.WellFormed : Tys → Prop
  | .nil => True
  | .cons t ts => t.WellFormed ∧ ts.WellFormed
def Members.WellFormed : Members → Prop
  | .nil => True
  | .cons _ t ms => t.WellFormed ∧ ms.WellFormed
end

mutual
/-- `GetString` and `data` cut none of the strings, what a pointer points to is not `null` in JSON,
the elements of a set are in order, and there is no `const char *`, which `pull` does not store. -/
def Ty.Readable : (t : Ty) → t.Val F → Prop
  | .bool, _ => True
  | .integer _, _ => True
  | .double, _ => True
  | .float, _ => True
  | .enum _, _ => True
  | .string, s => cStr s = s
  | .charPtr, _ => False
  | .vector t, l => l.Forall t.Readable
  | .set t, l => l.Forall t.Readable ∧ l.Pairwise fun a b => P.less t a b ∧ ¬ P.less t b a
  | .multiset t, l => l.Forall t.Readable ∧ l.Pairwise fun a b => ¬ P.less t b a
  | .map t, m => ∀ e ∈ m.entries, cStr e.1 = e.1 ∧ t.Readable e.2
  | .tuple ts, v => ts.Readable v
  | .ptr _, none => True
  | .ptr t, some x => t.push x ≠ .null ∧ t.Readable x
  | .struct _ ms, v => ms.Readable v
def Tys.Readable : (ts : Tys) → ts.Val F → Prop
  | .nil, _ => True
  | .cons t ts, v => t.Readable v.1 ∧ ts.Readable v.2
def Members.Readable : (ms : Members) → ms.Val F → Prop
  | .nil, _ => True
  | .cons _ t ms, v => t.Readable v.1 ∧ ms.Readable v.2
end

mutual
/-- The maps that are pulled into are empty. -/
def Ty.Blank : (t : Ty) → t.Val F → Prop
  | .bool, _ => True
  | .integer _, _ => True
  | .double, _ => True
  | .float, _ => True
  | .enum _, _ => True
  | .string, _ => True
  | .charPtr, _ => True
  | .vector _, _ => True
  | .set _, _ => True
  | .multiset _, _ => True
  | .map _, m => m.entries = []
  | .tuple ts, v => ts.Blank v
  | .ptr _, _ => True
  | .struct _ ms, v => ms.Blank v
def Tys.Blank : (ts : Tys) → ts.Val F → Prop
  | .nil, _ => True
  | .cons t ts, v => t.Blank v.1 ∧ ts.Blank v.2
def Members.Blank : (ms : Members) → ms.Val F → Prop
  | .nil, _ => True
  | .cons _ t ms, v => t.Blank v.1 ∧ ms.Blank v.2
end

mutual
/-- A value with zeros in it is a blank one. -/
theorem Ty.blank_zero (double : F.double) (float : F.float) :
    (t : Ty) → t.Blank (t.zero double float)
  | .bool => trivial
  | .integer _ => trivial
  | .double => trivial
  | .float => trivial
  | .enum _ => trivial
  | .string => trivial
  | .charPtr => trivial
  | .vector _ => trivial
  | .set _ => trivial
  | .multiset _ => trivial
  | .map _ => rfl
  | .tuple ts => ts.blank_zero double float
  | .ptr _ => trivial
  | .struct _ ms => ms.blank_zero double float
/-- The elements of a tuple of zeros are blank. -/
theorem Tys.blank_zero (double : F.double) (float : F.float) :
    (ts : Tys) → ts.Blank (ts.zero double float)
  | .nil => trivial
  | .cons t ts => ⟨t.blank_zero double float, ts.blank_zero double float⟩
/-- The members of a structure of zeros are blank. -/
theorem Members.blank_zero (double : F.double) (float : F.float) :
    (ms : Members) → ms.Blank (ms.zero double float)
  | .nil => trivial
  | .cons _ t ms => ⟨t.blank_zero double float, ms.blank_zero double float⟩
end

/-! ## Pushing -/

/-- A tuple becomes an array with its elements. -/
theorem Tys.length_push : (ts : Tys) → (x : ts.Val F) → (ts.push x).length = ts.size
  | .nil, _ => rfl
  | .cons _ ts, x => by rw [Tys.push, List.length_cons, ts.length_push x.2, Tys.size]

/-- A structure becomes an object with the names of its members. -/
theorem Members.map_push : (ms : Members) → (x : ms.Val F) → (ms.push x).map Prod.fst = ms.names
  | .nil, _ => rfl
  | .cons _ _ ms, x => by rw [Members.push, List.map_cons, ms.map_push x.2, Members.names]

/-- With different names, the value of a member is the one that is found. -/
theorem findMember_of_mem {l : List (String × Json F)} (h : (l.map Prod.fst).Nodup)
    {m : String × Json F} (hm : m ∈ l) : findMember m.1 l = some m.2 := by
  obtain ⟨m', hm'⟩ : ∃ m', l.find? (fun n => n.1 = m.1) = some m' := by
    rw [← Option.isSome_iff_exists, List.find?_isSome]
    exact ⟨m, hm, by simp⟩
  have hname : m'.1 = m.1 := by simpa using List.find?_some hm'
  -- two members of one name are the same
  have heq : m' = m := List.inj_on_of_nodup_map h (List.mem_of_find?_eq_some hm') hm hname
  rw [findMember, hm', heq]
  rfl

/-! ## Pulling -/

/-- What is read back from each element of a list is the list. -/
theorem eq_of_forall₂_map {α γ : Type} {push : α → γ} {good : γ → α → Prop} {l as : List α}
    (h : ∀ x ∈ l, ∀ a, good (push x) a → a = x) (has : List.Forall₂ good (l.map push) as) :
    as = l := by
  induction l generalizing as with
  | nil => exact List.forall₂_nil_left_iff.mp has
  | cons x l ih =>
    obtain ⟨a, as, ha, htail, rfl⟩ := List.forall₂_cons_left_iff.mp has
    obtain ⟨hfirst, hrest⟩ := List.forall_mem_cons.mp h
    rw [hfirst a ha, ih hrest htail]

variable {P}

/-- A member that the object does not have is as before. -/
def Members.KeepsMissing (l : List (String × Json F)) : (ms : Members) → ms.Val F → ms.Val F → Prop
  | .nil, _, _ => True
  | .cons name _ ms, old, a =>
    (findMember name l = none → a.1 = old.1) ∧ ms.KeepsMissing l old.2 a.2

/-- The maps in new values and in local variables are empty. -/
def Platform.Blank (P : Platform F) : Prop :=
  ∀ t : Ty, t.Blank (P.fresh t) ∧ t.Blank (P.localVar t)

/-- What is pulled of JSON that was made of a value is that value. -/
def Ty.Restores (P : Platform F) (t : Ty) (old : t.Val F) (v : Json F) (a : t.Val F) : Prop :=
  P.Blank → t.WellFormed → t.Blank old →
    ∀ x, t.Readable P x → v = t.push x → a = x

/-- JSON of another form is reported; it is not that of a value. -/
theorem Ty.reads_mismatch {t : Ty} {old : t.Val F} {v : Json F} (hform : ¬ t.Conforms P v)
    (hpush : ∀ x : t.Val F, v ≠ t.push x) :
    Reads (do reportTypeMismatch t v; return old) (t.Conforms P v) t.HasSet
      (t.Restores P old v) :=
  reads_report (by decide) _ _ old hform fun _ _ _ x _ h => absurd h (hpush x)

/-- An enumeration is read of an integer of 64 bits. -/
theorem reads_pullEnum (u : Underlying) (old : (Ty.enum u).Val F) (v : Json F) :
    Reads ((Ty.enum u).pull P old v) ((Ty.enum u).Conforms P v) (Ty.enum u).HasSet
      ((Ty.enum u).Restores P old v) := by
  cases v with
  | num n =>
    cases n with
    | int z =>
      by_cases hz : u.expectedType.Fits z
      · have hpull : (Ty.enum u).pull P old (.num (.int z))
            = pure ⟨u.castInt z, u.fits_castInt z⟩ := if_pos hz
        rw [hpull]
        refine (reads_pure fun _ _ _ x _ h => ?_).imp (by simp [Ty.Conforms, hz]) fun _ h => h
        cases h
        exact Subtype.ext (Underlying.castInt_of_fits x.2)
      · have hpull : (Ty.enum u).pull P old (.num (.int z))
            = do reportTypeMismatch (.enum u) (Json.num (F := F) (.int z)); return old := if_neg hz
        rw [hpull]
        refine Ty.reads_mismatch (by simp [Ty.Conforms, hz]) fun x h => ?_
        cases h
        exact hz (Underlying.expectedType_fits x.2)
    | real d => exact Ty.reads_mismatch (by simp [Ty.Conforms]) fun _ h => by cases h
  | _ => exact Ty.reads_mismatch (by simp [Ty.Conforms]) fun _ h => by cases h

/-- The elements of a set are right when each of them is. -/
def Ty.ReadsElements (P : Platform F) (t : Ty) (sets : Prop) : Prop :=
  ∀ v, Reads (t.pull P (P.localVar t) v) (t.Conforms P v) sets (t.Restores P (P.localVar t) v)

/-- Elements that were pushed are read as what they were. -/
theorem Ty.ReadsElements.map_element {t : Ty} {sets : Prop} (h : t.ReadsElements P sets)
    (hfresh : P.Blank) (hwf : t.WellFormed) {x : List (t.Val F)} (hx : ∀ y ∈ x, t.Readable P y) :
    (x.map t.push).map (t.element P) = x := by
  have helement : x.map (t.element P ∘ t.push) = x.map id := by
    refine List.map_congr_left fun y hy => ?_
    obtain ⟨a, _, _, -, -, -, -, hread, ha⟩ := (h (t.push y)).valueOf (P.localVar t)
    rw [Function.comp_apply, element, ← ha]
    exact hread hfresh hwf (hfresh t).2 y (hx y hy) rfl
  rw [List.map_map, helement, List.map_id]

/-- The elements of a set are read, and those of a set that was pushed are put into it again. -/
theorem Ty.ReadsElements.pullElements {t : Ty} {sets : Prop} (h : t.ReadsElements P sets)
    {emplace : t.Val F → List (t.Val F) → Option (List (t.Val F))}
    (hsets : (∃ a s, emplace a s = none) → sets) (l : List (Json F)) :
    Reads (do
        let s ← Reflector.pullElements emplace (t.pull P (P.localVar t)) 0 l []
        setPlace fun p => { p with index := none }
        return s)
      ((∀ w ∈ l, t.Conforms P w) ∧ AllNew emplace (l.map (t.element P)) []) sets
      fun s => P.Blank → t.WellFormed → ∀ x, (∀ y ∈ x, t.Readable P y) → l = x.map t.push →
        s = emplaceAll emplace x [] := by
  have hvalue : ∀ v, Reads (t.pull P (P.localVar t) v) (t.Conforms P v) sets
      fun a => a = t.element P v := fun v =>
    ((h v).valueOf (P.localVar t)).imp Iff.rfl fun _ ha => ha.2
  refine reads_of_iff (((∀ w ∈ l, t.Conforms P w)
    ∧ AllNew emplace (l.map (t.element P)) []) ∧ True ∧ True) (by simp) ?_
  refine (reads_pullElements hvalue hsets 0 l []).bind fun s hs => ?_
  refine (reads_setIndex none).bind fun _ _ => reads_pure fun hfresh hwf x hx hl => ?_
  rw [hs, hl, h.map_element hfresh hwf hx]

mutual
/-- What is read at a type is right for it, and what was written is read back. -/
theorem Ty.reads_pull : (t : Ty) → (old : t.Val F) → (v : Json F) →
    Reads (t.pull P old v) (t.Conforms P v) t.HasSet (t.Restores P old v)
  | .bool, old, v => by
    cases v with
    | bool b =>
      refine (reads_pure fun _ _ _ x _ h => ?_).imp (by simp [Ty.Conforms]) fun _ h => h
      exact Json.bool.inj h
    | _ => exact Ty.reads_mismatch (by simp [Ty.Conforms]) fun _ h => by cases h
  | .integer k, old, v => by
    cases v with
    | num n =>
      refine (reads_pure fun _ _ _ x _ h => ?_).imp (by simp [Ty.Conforms]) fun _ h => h
      cases h
      exact dif_pos x.2
    | _ => exact Ty.reads_mismatch (by simp [Ty.Conforms]) fun _ h => by cases h
  | .double, old, v => by
    cases v with
    | num n =>
      refine (reads_pure fun _ _ _ x _ h => ?_).imp (by simp [Ty.Conforms]) fun _ h => h
      cases h
      exact P.getDouble_real x
    | _ => exact Ty.reads_mismatch (by simp [Ty.Conforms]) fun _ h => by cases h
  | .float, old, v => by
    cases v with
    | num n =>
      refine (reads_pure fun _ _ _ x _ h => ?_).imp (by simp [Ty.Conforms]) fun _ h => h
      cases h
      exact (congrArg P.castFloat (P.getDouble_real _)).trans (P.castFloat_widen x)
    | _ => exact Ty.reads_mismatch (by simp [Ty.Conforms]) fun _ h => by cases h
  | .enum u, old, v => reads_pullEnum u old v
  | .string, old, v => by
    cases v with
    | str s =>
      refine (reads_pure fun _ _ _ x hx h => ?_).imp (by simp [Ty.Conforms]) fun _ h => h
      cases h
      exact hx
    | _ => exact Ty.reads_mismatch (by simp [Ty.Conforms]) fun _ h => by cases h
  | .charPtr, old, v => by
    cases v with
    | str s =>
      exact (reads_pure fun _ _ _ x hx _ => hx.elim).imp (by simp [Ty.Conforms]) fun _ h => h
    | _ => exact Ty.reads_mismatch (by simp [Ty.Conforms]) fun _ h => by cases h
  | .vector t, old, v => by
    cases v with
    | arr l =>
      refine reads_of_iff ((∀ w ∈ l, t.Conforms P w) ∧ True ∧ True) (by simp [Ty.Conforms]) ?_
      refine (reads_pullItems (t.reads_pull (P.fresh t)) 0 l).bind fun as has => ?_
      refine (reads_setIndex none).bind fun _ _ => ?_
      refine reads_pure fun hfresh hwf _ x hx h => ?_
      rw [Ty.push, Json.arr.injEq] at h
      rw [h] at has
      refine eq_of_forall₂_map (fun y hy a ha => ?_) has
      exact ha hfresh hwf (hfresh t).1 y (List.forall_iff_forall_mem.mp hx y hy) rfl
    | _ => exact Ty.reads_mismatch (by simp [Ty.Conforms]) fun _ h => by cases h
  | .set t, old, v => by
    cases v with
    | arr l =>
      have helements : t.ReadsElements P True := fun v =>
        (t.reads_pull (P.localVar t) v).mono fun _ => trivial
      refine (helements.pullElements (fun _ => trivial) l).imp
        (by simp [Ty.Conforms, allNew_emplaceSet_iff]) ?_
      intro s hs hfresh hwf _ x hx h
      rw [Ty.push, Json.arr.injEq] at h
      rw [hs hfresh hwf x (List.forall_iff_forall_mem.mp hx.1) h]
      exact emplaceAll_nil (fun _ _ => emplaceSet_last) hx.2
    | _ => exact Ty.reads_mismatch (by simp [Ty.Conforms]) fun _ h => by cases h
  | .multiset t, old, v => by
    cases v with
    | arr l =>
      have helements : t.ReadsElements P t.HasSet := t.reads_pull (P.localVar t)
      refine (helements.pullElements ?_ l).imp (by simp [Ty.Conforms, allNew_emplaceMultiset]) ?_
      · rintro ⟨_, _, hnone⟩
        cases hnone
      intro s hs hfresh hwf _ x hx h
      rw [Ty.push, Json.arr.injEq] at h
      rw [hs hfresh hwf x (List.forall_iff_forall_mem.mp hx.1) h]
      exact emplaceAll_nil (fun _ _ => emplaceMultiset_last) hx.2
    | _ => exact Ty.reads_mismatch (by simp [Ty.Conforms]) fun _ h => by cases h
  | .map t, old, v => by
    cases v with
    | obj l =>
      refine (reads_pullEntries t.reads_pull l old).imp (by simp [Ty.Conforms]) ?_
      intro m hm hfresh hwf hblank x hx h
      rw [Ty.push, Json.obj.injEq] at h
      have hentries : m.entries = old.entries ++ x.entries := by
        refine hm x.entries ?_ ?_
        · rw [show old.entries = [] from hblank]
          exact x.sorted
        · rw [h, List.forall₂_map_left_iff, List.forall₂_same]
          intro e he
          obtain ⟨hkey, hvalue⟩ := hx e he
          refine ⟨?_, fun b hb => hb hfresh hwf (hfresh t).1 e.2 hvalue rfl⟩
          rw [hkey, hkey]
      rw [show old.entries = [] from hblank, List.nil_append] at hentries
      obtain ⟨entries, hsorted⟩ := m
      obtain ⟨entries', hsorted'⟩ := x
      cases hentries
      rfl
    | _ => exact Ty.reads_mismatch (by simp [Ty.Conforms]) fun _ h => by cases h
  | .tuple ts, old, v => by
    cases v with
    | arr l =>
      by_cases hlength : l.length = ts.size
      · refine reads_of_iff (ts.Conforms P l) (by simp [Ty.Conforms, hlength]) ?_
        have hpull : (Ty.tuple ts).pull P old (.arr l) = ts.pull P old l := if_pos hlength
        rw [hpull]
        refine (ts.reads_pull old l).imp Iff.rfl ?_
        intro a ha hfresh hwf hblank x hx h
        exact ha hfresh hwf hblank x hx (Json.arr.inj h)
      · have hpull : (Ty.tuple ts).pull P old (.arr l)
            = do reportArraySizeMismatch; return old := if_neg hlength
        rw [hpull]
        have hform : ¬ (Ty.tuple ts).Conforms P (.arr l) := by simp [Ty.Conforms, hlength]
        refine reads_report (by decide) _ _ old hform fun _ _ _ x _ h => ?_
        rw [Json.arr.inj h] at hlength
        exact absurd (ts.length_push x) hlength
    | _ => exact Ty.reads_mismatch (by simp [Ty.Conforms]) fun _ h => by cases h
  | .ptr t, old, v => by
    by_cases hnull : v = .null
    · rw [hnull]
      refine (reads_pure fun _ _ _ x hx h => ?_).imp (by simp [Ty.Conforms]) fun _ h => h
      cases x with
      | none => rfl
      | some y => exact absurd h.symm hx.1
    · have hpull : (Ty.ptr t).pull P old v = do return some (← t.pull P (P.fresh t) v) := by
        cases v with
        | null => exact absurd rfl hnull
        | _ => rfl
      rw [hpull]
      refine reads_of_iff (t.Conforms P v ∧ True) (by simp [Ty.Conforms, hnull]) ?_
      refine (t.reads_pull (P.fresh t) v).bind fun a ha => ?_
      refine reads_pure fun hfresh hwf _ x hx h => ?_
      cases x with
      | none => exact absurd h hnull
      | some y => rw [ha hfresh hwf (hfresh t).1 y hx.2 h]
  | .struct name ms, old, v => by
    cases v with
    | obj l =>
      refine (ms.reads_pull old l).imp (by simp [Ty.Conforms]) ?_
      intro a ⟨_, ha⟩ hfresh hwf hblank x hx h
      cases h
      refine ha hfresh hwf.2 hblank x hx fun m hm => findMember_of_mem ?_ hm
      rw [ms.map_push x]
      exact hwf.1
    | _ => exact Ty.reads_mismatch (by simp [Ty.Conforms]) fun _ h => by cases h
/-- What is read as a tuple is right for its elements, and what was written is read back. -/
theorem Tys.reads_pull : (ts : Tys) → (old : ts.Val F) → (l : List (Json F)) →
    Reads (ts.pull P old l) (ts.Conforms P l) ts.HasSet fun a =>
      P.Blank → ts.WellFormed → ts.Blank old →
        ∀ x, ts.Readable P x → l = ts.push x → a = x
  | .nil, old, l => (reads_pure fun _ _ _ x _ _ => rfl).imp (by simp [Tys.Conforms]) fun _ h => h
  | .cons t ts, old, [] => by
    refine (reads_pure ?_).imp (by simp [Tys.Conforms]) fun _ h => h
    intro _ _ _ x _ h
    rw [Tys.push] at h
    cases h
  | .cons t ts, old, v :: l => by
    rw [Tys.pull]
    refine reads_of_iff (t.Conforms P v ∧ ts.Conforms P l ∧ True) (by simp [Tys.Conforms]) ?_
    refine ((t.reads_pull old.1 v).mono .inl).bind fun a ha => ?_
    refine ((ts.reads_pull old.2 l).mono .inr).bind fun as has => ?_
    refine reads_pure fun hfresh hwf hblank x hx h => ?_
    rw [Tys.push, List.cons.injEq] at h
    rw [ha hfresh hwf.1 hblank.1 x.1 hx.1 h.1, has hfresh hwf.2 hblank.2 x.2 hx.2 h.2]
    rfl
/-- What is read as a structure is right for the members that are there and keeps the others, and
what was written is read back. -/
theorem Members.reads_pull : (ms : Members) → (old : ms.Val F) → (l : List (String × Json F)) →
    Reads (ms.pull P old l) (ms.Conforms P l) ms.HasSet fun a => ms.KeepsMissing l old a ∧
      (P.Blank → ms.WellFormed → ms.Blank old →
        ∀ x, ms.Readable P x → (∀ m ∈ ms.push x, findMember m.1 l = some m.2) → a = x)
  | .nil, old, l => by
    refine (reads_pure ?_).imp (by simp [Members.Conforms]) fun _ h => h
    exact ⟨trivial, fun _ _ _ x _ _ => rfl⟩
  | .cons name t ms, old, l => by
    rw [Members.pull]
    refine reads_of_iff
      ((∀ v, findMember name l = some v → t.Conforms P v) ∧ ms.Conforms P l ∧ True)
      (by simp [Members.Conforms]) ?_
    have hfirst : Reads (pullMember name (t.pull P old.1) old.1 l) _ _ _ :=
      reads_pullMember (t.reads_pull old.1)
    refine (hfirst.mono .inl).bind fun a ⟨hmissing, ha⟩ => ?_
    refine ((ms.reads_pull old.2 l).mono .inr).bind fun as ⟨hmissing', has⟩ => ?_
    refine reads_pure ⟨⟨hmissing, hmissing'⟩, fun hfresh hwf hblank x hx h => ?_⟩
    rw [Members.push] at h
    obtain ⟨hfirst, hrest⟩ := List.forall_mem_cons.mp h
    rw [ha _ hfirst hfresh hwf.1 hblank.1 x.1 hx.1 rfl, has hfresh hwf.2 hblank.2 x.2 hx.2 hrest]
    rfl
end

mutual
/-- What is pushed has the form of the type. -/
theorem Ty.conforms_push (hfresh : P.Blank) : (t : Ty) → (x : t.Val F) → t.WellFormed →
    t.Readable P x → t.Conforms P (t.push x)
  | .bool, x, _, _ => ⟨x, rfl⟩
  | .integer _, x, _, _ => ⟨.int x.1, rfl⟩
  | .double, x, _, _ => ⟨.real x, rfl⟩
  | .float, x, _, _ => ⟨.real (F.widen x), rfl⟩
  | .enum _, x, _, _ => ⟨x.1, rfl, Underlying.expectedType_fits x.2⟩
  | .string, x, _, _ => ⟨x, rfl⟩
  | .charPtr, _, _, hx => hx.elim
  | .vector t, x, hwf, hx => by
    refine ⟨_, rfl, List.forall_mem_map.mpr fun y hy => ?_⟩
    exact t.conforms_push hfresh y hwf (List.forall_iff_forall_mem.mp hx y hy)
  | .set t, x, hwf, hx => by
    have hread := List.forall_iff_forall_mem.mp hx.1
    refine ⟨_, rfl, List.forall_mem_map.mpr fun y hy => ?_, ?_⟩
    · exact t.conforms_push hfresh y hwf (hread y hy)
    · have helements : t.ReadsElements P t.HasSet := t.reads_pull (P.localVar t)
      rw [helements.map_element hfresh hwf hread]
      exact hx.2.imp fun h => by simp [equivalent, h.1]
  | .multiset t, x, hwf, hx => by
    refine ⟨_, rfl, List.forall_mem_map.mpr fun y hy => ?_⟩
    exact t.conforms_push hfresh y hwf (List.forall_iff_forall_mem.mp hx.1 y hy)
  | .map t, x, hwf, hx => by
    refine ⟨_, rfl, List.forall_mem_map.mpr fun e he => ?_⟩
    exact t.conforms_push hfresh e.2 hwf (hx e he).2
  | .tuple ts, x, hwf, hx =>
    ⟨_, rfl, ts.length_push x, ts.conforms_push hfresh x hwf hx⟩
  | .ptr _, none, _, _ => .inl rfl
  | .ptr t, some x, hwf, hx => .inr (t.conforms_push hfresh x hwf hx.2)
  | .struct _ ms, x, hwf, hx => by
    refine ⟨_, rfl, ms.conforms_push hfresh x hwf.2 hx fun m hm => findMember_of_mem ?_ hm⟩
    rw [ms.map_push x]
    exact hwf.1
/-- The elements of a tuple have their forms. -/
theorem Tys.conforms_push (hfresh : P.Blank) : (ts : Tys) → (x : ts.Val F) → ts.WellFormed →
    ts.Readable P x → ts.Conforms P (ts.push x)
  | .nil, _, _, _ => trivial
  | .cons t ts, x, hwf, hx =>
    ⟨t.conforms_push hfresh x.1 hwf.1 hx.1, ts.conforms_push hfresh x.2 hwf.2 hx.2⟩
/-- The members of a structure have their forms where they are found. -/
theorem Members.conforms_push (hfresh : P.Blank) {l : List (String × Json F)} : (ms : Members) →
    (x : ms.Val F) → ms.WellFormed → ms.Readable P x →
    (∀ m ∈ ms.push x, findMember m.1 l = some m.2) → ms.Conforms P l
  | .nil, _, _, _, _ => trivial
  | .cons name t ms, x, hwf, hx, h => by
    rw [Members.push] at h
    obtain ⟨hfirst, hrest⟩ := List.forall_mem_cons.mp h
    refine ⟨fun v hv => ?_, ms.conforms_push hfresh x.2 hwf.2 hx.2 hrest⟩
    rw [hfirst, Option.some.injEq] at hv
    rw [← hv]
    exact t.conforms_push hfresh x.1 hwf.1 hx.1
end

/-- **What `pull` reports.**  It reads the same value with errors to report to and without, unless
there is a duplicate in a set: without errors it dereferences a null pointer then, and fails in no
other way.  What it reports goes by the place alone, and is nothing just if the JSON has the form of
the type.  The first error of a kind that is thrown is thrown; otherwise all of them are in the
list, after those that were there, and the record and the member are the ones before.  No error
names the structure that it is in: the record is always the first one. -/
theorem Ty.pull_reports (P : Platform F) (t : Ty) (old : t.Val F) (v : Json F) :
    ∃ (a : t.Val F) (errs : Place → List JsonDeserializationError) (next : Place → Place),
      (∀ p, t.pull P old v none
          = if (errs p).any JsonDeserializationError.isDuplicate then .error .nullDereference
            else .ok (a, none))
      ∧ (∀ e : Errors, t.pull P old v (some e)
          = match (errs e.place).find? fun err => e.throwOn err.kind with
            | some err => .error (.thrown err)
            | none => .ok (a, some ⟨e.list ++ errs e.place, next e.place, e.throwOn⟩))
      ∧ (∀ p, (next p).record = p.record ∧ (next p).member = p.member)
      ∧ (∀ p, ∀ err ∈ errs p, err.record = p.record ∧ (err.isDuplicate → t.HasSet))
      ∧ ∀ p, errs p = [] ↔ t.Conforms P v := by
  obtain ⟨a, errs, next, hm, hplace, hrecord, herrs, -⟩ := t.reads_pull (P := P) old v
  exact ⟨a, errs, next, hm.silent, hm.outcome, hplace, hrecord, herrs⟩

end Reflector
