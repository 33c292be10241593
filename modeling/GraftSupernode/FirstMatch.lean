/-
# The first matching rule

What the rule file is for: the first rule whose prefix has the address decides, and the rule for all
addresses where there is none.

The rules that are kept as the file is read are found by their longest match, which is their first
match: a rule is dropped when its address lies in one that is kept, so among the rules that have an
address the later ones are shorter.  A rule that is dropped can be broader than the one that its
address lies in, and then the addresses beyond that one are left to the rules below.

A second file replaces the table of the first one, but not its default.
-/
import GraftSupernode.RuleFile
import GraftSupernode.LongestPrefix

namespace RuleFile

/-- A rule for the addresses with a prefix. -/
structure Rule where
  entry : RtEntry
  allow : Bool
  masked : entry.Masked
  pos : 1 ≤ entry.prefixLen

namespace Rule

def Contains (r : Rule) (addr : BitVec 32) : Prop := r.entry.bits <+: word addr

instance (r : Rule) (addr : BitVec 32) : Decidable (r.Contains addr) :=
  inferInstanceAs (Decidable (_ <+: _))

theorem length_bits (r : Rule) : r.entry.bits.length = r.entry.prefixLen :=
  RtEntry.length_bits r.masked.le

end Rule

/-- The decision of the first rule that has the address. -/
def firstMatch (rules : List Rule) (default : Bool) (addr : BitVec 32) : Bool :=
  match rules.find? fun r => r.Contains addr with
  | some r => r.allow
  | none => default

/-! ## The rules of a file -/

theorem getMsbD_lowMask : ∀ len < 33, ∀ i < 32, (mask len).getMsbD i = decide (i < len) := by
  decide +kernel

theorem masked_mask (addr : BitVec 32) {len : ℕ} (h : len ≤ 32) :
    (⟨addr &&& mask len, len⟩ : RtEntry).Masked := by
  refine RtEntry.masked_of_forall_lt h fun i hi hle => ?_
  rw [BitVec.getMsbD_and, getMsbD_lowMask len (by omega) i hi, decide_eq_false (not_lt.mpr hle),
    Bool.and_false]

/-- The rule that is on a line. -/
def ruleOf (allow : Bool) (ip : List Char) (digits : Option (List Char)) : Option Rule :=
  if h : 1 ≤ maskLength digits ∧ maskLength digits ≤ 32 then
    (inetAton ip).map fun addr =>
      ⟨⟨ntohl addr &&& mask (maskLength digits), maskLength digits⟩, allow,
        masked_mask _ h.2, h.1⟩
  else none

/-- The rules of a file, in order, up to the one for all addresses, and what that one says. -/
def rulesOf : List (List Char) → List Rule × Option Bool
  | [] => ([], none)
  | s :: lines =>
    match matchRule (trim (removeComment s)) with
    | none => rulesOf lines
    | some (allow, none) => ([], some allow)
    | some (allow, some (ip, digits)) =>
      ((ruleOf allow ip digits).toList ++ (rulesOf lines).1, (rulesOf lines).2)

/-! ## The rules that are kept -/

/-- A rule is dropped when one that is kept has its address. -/
def Dropped (kept : List Rule) (r : Rule) : Prop := ∃ r' ∈ kept, r'.Contains r.entry.addr

instance (kept : List Rule) (r : Rule) : Decidable (Dropped kept r) :=
  inferInstanceAs (Decidable (∃ r' ∈ kept, _))

def keep (kept : List Rule) (r : Rule) : List Rule :=
  if Dropped kept r then kept else kept ++ [r]

/-- The table of the rules that are kept. -/
def tableOf (kept : List Rule) : PrefixTable Bool Bool := fun q =>
  (kept.find? fun r => r.entry.bits = q).map Rule.allow

/-- A rule that is not dropped fits the table. -/
def FitsKept (kept : List Rule) (r : Rule) : Prop :=
  Dropped kept r ∨ BlackList.FitsIn (tableOf kept) r.entry.addr r.entry.prefixLen

variable {kept : List Rule} {r : Rule} {addr : BitVec 32}

theorem tableOf_append_singleton (kept : List Rule) (r : Rule) :
    (tableOf kept).insertNew r.entry.bits r.allow = tableOf (kept ++ [r]) := by
  funext q
  rw [PrefixTable.insertNew]
  by_cases hq : q = r.entry.bits
  · subst hq
    cases hfind : kept.find? fun r' => r'.entry.bits = r.entry.bits with
    | some r' => simp [tableOf, hfind, List.find?_append]
    | none => simp [tableOf, hfind, List.find?_append]
  · have hsame : tableOf (kept ++ [r]) q = tableOf kept q := by
      simp [tableOf, List.find?_append, Ne.symm hq]
    rw [hsame]
    split
    · rfl
    · rw [Function.update_of_ne hq]

/-- Whether the table has an entry for an address. -/
theorem longest_isSome_iff :
    ((tableOf kept).longest (word addr)).isSome ↔ ∃ r ∈ kept, r.Contains addr := by
  rw [← not_iff_not, Bool.not_eq_true, Option.isSome_eq_false_iff, Option.isNone_iff_eq_none,
    PrefixTable.longest_eq_none_iff]
  constructor
  · rintro hnone ⟨r, hr, hcontains⟩
    have hno := hnone _ hcontains
    rw [tableOf, Option.map_eq_none_iff, List.find?_eq_none] at hno
    exact hno r hr (decide_eq_true rfl)
  · intro hnone q hq
    rw [tableOf, Option.map_eq_none_iff, List.find?_eq_none]
    intro r hr hbits
    have hbits : r.entry.bits = q := of_decide_eq_true hbits
    refine hnone ⟨r, hr, ?_⟩
    rw [Rule.Contains, hbits]
    exact hq

/-- No rule has the address of a later one. -/
def Stacked (kept : List Rule) : Prop := kept.Pairwise fun r r' => ¬ r.Contains r'.entry.addr

theorem Stacked.keep (h : Stacked kept) (r : Rule) : Stacked (keep kept r) := by
  rw [RuleFile.keep]
  split
  · exact h
  · rename_i hdropped
    refine List.pairwise_append.mpr ⟨h, List.pairwise_singleton _ _, ?_⟩
    intro r₁ h₁ r₂ h₂ hcontains
    rw [List.mem_singleton.mp h₂] at hcontains
    exact hdropped ⟨r₁, h₁, hcontains⟩

/-- Of two rules that have an address, the later one is shorter. -/
theorem length_le_of_not_contains {r r' : Rule} (h : ¬ r.Contains r'.entry.addr)
    (hr : r.Contains addr) (hr' : r'.Contains addr) :
    r'.entry.bits.length ≤ r.entry.bits.length := by
  by_contra hlt
  have hpre : r.entry.bits <+: r'.entry.bits :=
    List.prefix_of_prefix_length_le hr hr' (not_le.mp hlt).le
  exact h (hpre.trans r'.entry.bits_prefix_word)

/-- Where the first rule that has an address stands. -/
theorem find_first {rules : List Rule} {r : Rule}
    (hfind : (rules.find? fun r => r.Contains addr) = some r) :
    ∃ before after, rules = before ++ r :: after ∧ r.Contains addr ∧
      ∀ r' ∈ before, ¬ r'.Contains addr := by
  obtain ⟨hr, before, after, rfl, hbefore⟩ := List.find?_eq_some_iff_append.mp hfind
  refine ⟨before, after, rfl, of_decide_eq_true hr, fun r' hr' hcontains => ?_⟩
  have hno := hbefore r' hr'
  rw [decide_eq_true hcontains] at hno
  cases hno

/-- The first rule that has an address is the one that the table has for its prefix. -/
theorem tableOf_first {before after : List Rule} (hr : r.Contains addr)
    (hbefore : ∀ r' ∈ before, ¬ r'.Contains addr) :
    tableOf (before ++ r :: after) r.entry.bits = some r.allow := by
  rw [tableOf, Option.map_eq_some_iff]
  refine ⟨r, List.find?_eq_some_iff_append.mpr ⟨decide_eq_true rfl, before, after, rfl, ?_⟩, rfl⟩
  intro r' hr'
  rw [Bool.not_eq_true', decide_eq_false_iff_not]
  intro hbits
  refine hbefore r' hr' ?_
  rw [Rule.Contains, hbits]
  exact hr

/-- **The longest match is the first one** among the rules that are kept. -/
theorem longest_tableOf (h : Stacked kept) (addr : BitVec 32) :
    (tableOf kept).longest (word addr) = (kept.find? fun r => r.Contains addr).map Rule.allow := by
  cases hfind : kept.find? fun r => r.Contains addr with
  | none =>
    rw [List.find?_eq_none] at hfind
    rw [Option.map_none, ← Option.isNone_iff_eq_none, ← Option.isSome_eq_false_iff,
      ← Bool.not_eq_true, longest_isSome_iff]
    rintro ⟨r, hr, hcontains⟩
    exact hfind r hr (decide_eq_true hcontains)
  | some r =>
    obtain ⟨before, after, rfl, hr, hbefore⟩ := find_first hfind
    rw [Option.map_some, PrefixTable.longest_eq_some_iff]
    refine ⟨r.entry.bits, hr, tableOf_first hr hbefore, fun q hq hsome => ?_⟩
    -- an entry for a longer prefix would be a rule behind, and those are shorter
    rw [tableOf, Option.isSome_map, List.find?_isSome] at hsome
    obtain ⟨r', hr', hbits⟩ := hsome
    have hbits : r'.entry.bits = q := of_decide_eq_true hbits
    subst hbits
    rcases List.mem_append.mp hr' with hmem | hmem
    · exact absurd hq (hbefore r' hmem)
    · rcases List.mem_cons.mp hmem with rfl | hmem
      · exact le_rfl
      · have hstacked := (List.pairwise_append.mp h).2.1
        exact length_le_of_not_contains (List.rel_of_pairwise_cons hstacked hmem) hr hq

/-- What `find` says with the table of the rules that are kept. -/
theorem decision_tableOf (h : Stacked kept) (default : Bool) (addr : BitVec 32) :
    (BlackList.decision (tableOf kept) default addr).2 = firstMatch kept default addr := by
  rw [BlackList.decision, longest_tableOf h, firstMatch]
  cases kept.find? fun r => r.Contains addr <;> rfl

theorem exists_first {rules : List Rule} (h : ∃ r ∈ rules, r.Contains addr) :
    ∃ r before after, rules = before ++ r :: after ∧ r.Contains addr ∧
      ∀ r' ∈ before, ¬ r'.Contains addr := by
  have hsome : (rules.find? fun r => r.Contains addr).isSome := by
    rw [List.find?_isSome]
    obtain ⟨r, hr, hcontains⟩ := h
    exact ⟨r, hr, decide_eq_true hcontains⟩
  obtain ⟨r, hfind⟩ := Option.isSome_iff_exists.mp hsome
  exact ⟨r, find_first hfind⟩

theorem firstMatch_append {before after : List Rule} (default : Bool)
    (hbefore : ∀ r' ∈ before, ¬ r'.Contains addr) (hr : r.Contains addr) :
    firstMatch (before ++ r :: after) default addr = r.allow := by
  have hfind : (before ++ r :: after).find? (fun r => r.Contains addr) = some r := by
    refine List.find?_eq_some_iff_append.mpr ⟨decide_eq_true hr, before, after, rfl, ?_⟩
    intro r' hr'
    rw [decide_eq_false (hbefore r' hr')]
    rfl
  rw [firstMatch, hfind]

theorem firstMatch_of_forall_not {rules : List Rule} (default : Bool)
    (h : ∀ r ∈ rules, ¬ r.Contains addr) : firstMatch rules default addr = default := by
  have hfind : rules.find? (fun r => r.Contains addr) = none := by
    rw [List.find?_eq_none]
    intro r hr hcontains
    exact h r hr (of_decide_eq_true hcontains)
  rw [firstMatch, hfind]

/-! ## What is lost with the rules that are dropped -/

/-- The rules that are kept of a file. -/
def keptOf (rules : List Rule) : List Rule := Runs.exec keep [] rules

theorem stacked_exec_keep (h : Stacked kept) (rules : List Rule) :
    Stacked (Runs.exec keep kept rules) := by
  induction rules generalizing kept with
  | nil => exact h
  | cons r rules ih => exact ih (h.keep r)

/-- Rules are only kept behind the others. -/
theorem exec_keep (kept rules : List Rule) :
    ∃ more, Runs.exec keep kept rules = kept ++ more ∧ ∀ r ∈ more, r ∈ rules := by
  induction rules generalizing kept with
  | nil => exact ⟨[], (List.append_nil kept).symm, fun r hr => hr⟩
  | cons r rules ih =>
    obtain ⟨more, heq, hmem⟩ := ih (keep kept r)
    rw [Runs.exec_cons, heq, keep]
    split
    · exact ⟨more, rfl, fun r' hr' => List.mem_cons_of_mem _ (hmem r' hr')⟩
    · refine ⟨r :: more, List.append_cons kept r more ▸ rfl, fun r' hr' => ?_⟩
      rcases List.mem_cons.mp hr' with rfl | hr'
      · exact List.mem_cons_self
      · exact List.mem_cons_of_mem _ (hmem r' hr')

theorem mem_of_mem_keptOf {rules : List Rule} (h : r ∈ keptOf rules) : r ∈ rules := by
  obtain ⟨more, heq, hmem⟩ := exec_keep [] rules
  rw [keptOf, heq, List.nil_append] at h
  exact hmem r h

/-- Where a rule that is dropped is the first one to have an address, the rules that are kept say
the same of it. -/
def Redundant (rules : List Rule) (default : Bool) : Prop :=
  ∀ before r after, rules = before ++ r :: after → Dropped (keptOf before) r →
    ∀ addr, r.Contains addr → (∀ r' ∈ before, ¬ r'.Contains addr) →
      firstMatch (keptOf rules) default addr = r.allow

/-- **The rules that are dropped** are the ones to look at. -/
theorem firstMatch_keptOf_iff (rules : List Rule) (default : Bool) :
    (∀ addr, firstMatch (keptOf rules) default addr = firstMatch rules default addr) ↔
      Redundant rules default := by
  constructor
  · rintro h before r after rfl - addr hr hbefore
    rw [h addr, firstMatch_append default hbefore hr]
  · intro h addr
    by_cases hsome : ∃ r ∈ rules, r.Contains addr
    · obtain ⟨r, before, after, rfl, hr, hbefore⟩ := exists_first hsome
      rw [firstMatch_append default hbefore hr]
      by_cases hdropped : Dropped (keptOf before) r
      · exact h before r after rfl hdropped addr hr hbefore
      · -- the rule is kept, and none before it has the address
        obtain ⟨more, hmore, -⟩ := exec_keep (keep (keptOf before) r) after
        have hkept : keptOf (before ++ r :: after) = keptOf before ++ r :: more := by
          rw [keptOf, Runs.exec_append, Runs.exec_cons, ← keptOf, hmore, keep, if_neg hdropped,
            List.append_assoc, List.singleton_append]
        rw [hkept]
        exact firstMatch_append default (fun r' hr' => hbefore r' (mem_of_mem_keptOf hr')) hr
    · push Not at hsome
      rw [firstMatch_of_forall_not default hsome,
        firstMatch_of_forall_not default fun r hr => hsome r (mem_of_mem_keptOf hr)]

/-- Rules whose prefixes do not get shorter fit. -/
theorem along_fitsKept {rules : List Rule}
    (h : rules.Pairwise fun r r' => r.entry.prefixLen ≤ r'.entry.prefixLen)
    (hkept : ∀ k ∈ kept, ∀ r ∈ rules, k.entry.prefixLen ≤ r.entry.prefixLen) :
    Runs.Along keep FitsKept kept rules := by
  induction rules generalizing kept with
  | nil => trivial
  | cons r rules ih =>
    rw [List.pairwise_cons] at h
    refine ⟨.inr (PrefixTable.fits_of_length_le fun s hs => ?_), ih h.2 fun k hk r' hr' => ?_⟩
    · -- a prefix of the table is that of a rule that is kept
      rw [tableOf, Option.isSome_map, List.find?_isSome] at hs
      obtain ⟨k, hk, hbits⟩ := hs
      have hbits : k.entry.bits = s := of_decide_eq_true hbits
      rw [← hbits, k.length_bits]
      exact hkept k hk r List.mem_cons_self
    · unfold keep at hk
      split at hk
      · exact hkept k hk r' (List.mem_cons_of_mem r hr')
      · rcases List.mem_append.mp hk with hk | hk
        · exact hkept k hk r' (List.mem_cons_of_mem r hr')
        · rw [List.mem_singleton.mp hk]
          exact h.1 r' hr'

/-- A rule that is dropped is not missed when an earlier one has all of its addresses. -/
theorem redundant_of_covered {rules : List Rule} (default : Bool)
    (h : ∀ i : Fin rules.length, Dropped (keptOf (rules.take i)) rules[i] →
      ∃ r ∈ rules.take i, r.entry.bits <+: rules[i].entry.bits) : Redundant rules default := by
  rintro before r after rfl hdropped addr hr hbefore
  have hcovered := h ⟨before.length, by simp⟩
  simp only [Fin.getElem_fin, List.take_left, List.getElem_append_right le_rfl, Nat.sub_self,
    List.getElem_cons_zero] at hcovered
  obtain ⟨r', hr', hpre⟩ := hcovered hdropped
  exact absurd (hpre.trans hr) (hbefore r' hr')

end RuleFile

/-! ## Reading a file -/

namespace BlackList

open RuleFile

variable {bl : BlackList} {kept : List Rule}

/-- The end of `addRule`: the rule is dropped, or it is put into the table. -/
theorem keep_rule (h : RadixTree.Represents bl.table (tableOf kept)) (r : Rule) (text : String) :
    (FitsKept kept r ∧ ∃ t w,
      (if (bl.find r.entry.addr false).1 then some (.ok (), bl.warn text)
        else (bl.table.insert (r.entry, r.allow)).map fun t => (.ok (), { bl with table := t }))
        = some ((.ok (), { bl with table := t, warns := w }) : Except String Unit × BlackList) ∧
      RadixTree.Represents t (tableOf (keep kept r))) ∨
    (¬ FitsKept kept r ∧
      (if (bl.find r.entry.addr false).1 then some (.ok (), bl.warn text)
        else (bl.table.insert (r.entry, r.allow)).map fun t => (.ok (), { bl with table := t }))
        = (none : Option (Except String Unit × BlackList))) := by
  have hfound : (bl.find r.entry.addr false).1 = true ↔ Dropped kept r := by
    rw [find_eq_decision h, decision_fst, longest_isSome_iff]
    rfl
  by_cases hdropped : Dropped kept r
  · -- an earlier rule has the address of this one
    refine .inl ⟨.inl hdropped, bl.table, bl.warns ++ text, if_pos (hfound.mpr hdropped), ?_⟩
    rw [keep, if_pos hdropped]
    exact h
  · rw [if_neg (mt hfound.mp hdropped)]
    have hinsert := h.insert r.masked r.pos r.allow
    rw [stored_iff h, tableOf_append_singleton] at hinsert
    rcases hinsert with ⟨hfits, t, ht, hrep⟩ | ⟨hfits, ht⟩
    · refine .inl ⟨.inr hfits, t, bl.warns, by rw [ht, Option.map_some], ?_⟩
      rw [keep, if_neg hdropped]
      exact hrep
    · refine .inr ⟨?_, by rw [ht, Option.map_none]⟩
      rintro (hd | hf)
      · exact hdropped hd
      · exact hfits hf

/-- **`addRule`** keeps a rule that is not dropped and fits. -/
theorem addRule_spec (h : RadixTree.Represents bl.table (tableOf kept)) (allow : Bool)
    {ip : List Char} {digits : Option (List Char)} (line : ℕ)
    (hlen : 1 ≤ maskLength digits ∧ maskLength digits ≤ 32) :
    (∃ what bl', bl.addRule allow ip (maskLength digits) line = some (.error what, bl')) ∨
    ∃ r, ruleOf allow ip digits = some r ∧
      ((FitsKept kept r ∧ ∃ t w, bl.addRule allow ip (maskLength digits) line
          = some (.ok (), { bl with table := t, warns := w }) ∧
          RadixTree.Represents t (tableOf (keep kept r))) ∨
        (¬ FitsKept kept r ∧ bl.addRule allow ip (maskLength digits) line = none)) := by
  rw [addRule, ruleOf, dif_pos hlen]
  cases inetAton ip with
  | none => exact .inl ⟨_, _, rfl⟩
  | some addr =>
    exact .inr ⟨_, rfl, keep_rule h ⟨_, allow, masked_mask (ntohl addr) hlen.2, hlen.1⟩ _⟩

/-- After the rule for all addresses nothing changes. -/
theorem readLines_terminated (bl : BlackList) (line : ℕ) (lines : List (List Char)) :
    ∃ w, readLines bl true line lines = some (.ok (), { bl with warns := w }) := by
  induction lines generalizing line with
  | nil => exact ⟨bl.warns, rfl⟩
  | cons s lines ih =>
    rw [readLines]
    dsimp only
    split
    · exact ih (line + 1)
    · exact ⟨_, rfl⟩

/-- **The lines of a file**: an error, or the rules that are kept, as long as each one fits. -/
theorem readLines_spec (h : RadixTree.Represents bl.table (tableOf kept)) (line : ℕ)
    (lines : List (List Char)) :
    (∃ what bl', readLines bl false line lines = some (.error what, bl')) ∨
    (Runs.Along keep FitsKept kept (rulesOf lines).1 ∧
      ∃ t w, readLines bl false line lines = some (.ok (), { bl with
          table := t, warns := w, defaultAllow := (rulesOf lines).2.getD bl.defaultAllow }) ∧
        RadixTree.Represents t (tableOf (Runs.exec keep kept (rulesOf lines).1))) ∨
    (¬ Runs.Along keep FitsKept kept (rulesOf lines).1 ∧ readLines bl false line lines = none) := by
  induction lines generalizing bl kept line with
  | nil => exact .inr (.inl ⟨trivial, bl.table, bl.warns, rfl, h⟩)
  | cons s lines ih =>
    rw [readLines, rulesOf]
    dsimp only
    generalize trim (removeComment s) = s
    by_cases hempty : s.isEmpty = true
    · -- a line that is left empty is no rule
      rw [if_pos hempty, List.isEmpty_iff.mp hempty]
      exact ih h (line + 1)
    · rw [if_neg hempty, if_neg Bool.false_ne_true]
      match matchRule s with
      | none => exact .inl ⟨_, _, rfl⟩
      | some (allow, none) =>
        -- the rule for all addresses ends the list
        obtain ⟨w, hw⟩ := readLines_terminated { bl with defaultAllow := allow } (line + 1) lines
        exact .inr (.inl ⟨trivial, bl.table, w, hw, h⟩)
      | some (allow, some (ip, digits)) =>
        dsimp only
        by_cases hlen : 1 ≤ maskLength digits ∧ maskLength digits ≤ 32
        · have hok : ¬ (maskLength digits = 0 || decide (32 < maskLength digits)) = true := by
            simp
            omega
          rw [if_neg hok]
          rcases addRule_spec h allow line hlen with ⟨what, bl', herror⟩ | ⟨r, hr, hkept⟩
          · rw [herror]
            exact .inl ⟨what, bl', rfl⟩
          · rw [hr, Option.toList_some, List.singleton_append, Runs.along_cons, Runs.exec_cons]
            rcases hkept with ⟨hfits, t, w, hadd, hrep⟩ | ⟨hfits, hadd⟩
            · rw [hadd]
              rcases @ih { bl with table := t, warns := w } _ hrep (line + 1) with
                herror | ⟨halong, t', w', hread, hrep'⟩ | ⟨halong, hread⟩
              · exact .inl herror
              · exact .inr (.inl ⟨⟨hfits, halong⟩, t', w', hread, hrep'⟩)
              · exact .inr (.inr ⟨fun hall => halong hall.2, hread⟩)
            · -- the insertion is undefined, and so is the reading
              rw [hadd]
              exact .inr (.inr ⟨fun hall => hfits hall.1, rfl⟩)
        · -- a mask of a length that no address has
          have hbad : (maskLength digits = 0 || decide (32 < maskLength digits)) = true := by
            simp
            omega
          rw [if_pos hbad]
          exact .inl ⟨_, _, rfl⟩

theorem represents_nil : RadixTree.Represents (.nil : RadixTree Bool) (tableOf []) :=
  represents_create 0 0 0

/-- The rules of a file. -/
def fileRules (text : List Char) : List Rule := (rulesOf (text.splitOn '\n')).1

/-- What the rule for all addresses says, if the file has one. -/
def fileDefault (text : List Char) : Option Bool := (rulesOf (text.splitOn '\n')).2

/-- **`readRules`**: an error, or the table of the rules that are kept. -/
theorem readRules_spec (bl : BlackList) (text : List Char) :
    (∃ what bl', bl.readRules text = some (.error what, bl')) ∨
    (Runs.Along keep FitsKept [] (fileRules text) ∧
      ∃ t w, bl.readRules text = some (.ok (), { bl with
          table := t, warns := w, defaultAllow := (fileDefault text).getD bl.defaultAllow }) ∧
        RadixTree.Represents t (tableOf (keptOf (fileRules text)))) ∨
    (¬ Runs.Along keep FitsKept [] (fileRules text) ∧ bl.readRules text = none) :=
  @readLines_spec { bl with table := .nil } _ represents_nil 1 (text.splitOn '\n')

/-- What the table of the rules that are kept says. -/
theorem find_keptOf {rules : List Rule} (h : RadixTree.Represents bl.table (tableOf (keptOf rules)))
    (addr : BitVec 32) (networkOrder : Bool) :
    (bl.find addr networkOrder).2 =
      firstMatch (keptOf rules) bl.defaultAllow (hostOrder addr networkOrder) := by
  have hstacked : Stacked (keptOf rules) := stacked_exec_keep .nil rules
  rw [find_eq_decision h, decision_tableOf hstacked]

/-- The file is read, and then the first rule of it that has an address decides. -/
def DecidesFirst (bl : BlackList) (text : List Char) : Prop :=
  ∃ bl', bl.readRules text = some (.ok (), bl') ∧ ∀ addr networkOrder,
    (bl'.find addr networkOrder).2 =
      firstMatch (fileRules text) ((fileDefault text).getD true) (hostOrder addr networkOrder)

/-- **The first matching rule decides** exactly when each rule that is kept fits, and no rule that
is dropped is missed. -/
theorem decidesFirst_iff (requestsPerSec windowSizeSec banIpSec : ℤ) (text : List Char)
    (hno : ∀ what bl', (create requestsPerSec windowSizeSec banIpSec).readRules text
      ≠ some (.error what, bl')) :
    DecidesFirst (create requestsPerSec windowSizeSec banIpSec) text ↔
      Runs.Along keep FitsKept [] (fileRules text) ∧
        Redundant (fileRules text) ((fileDefault text).getD true) := by
  rcases readRules_spec (create requestsPerSec windowSizeSec banIpSec) text with
    ⟨what, bl', herror⟩ | ⟨halong, t, w, hok, hrep⟩ | ⟨halong, hnone⟩
  · exact absurd herror (hno what bl')
  · rw [and_iff_right halong, ← firstMatch_keptOf_iff]
    constructor
    · rintro ⟨bl', hread, hdecides⟩ addr
      rw [hok] at hread
      cases hread
      have hfirst := hdecides addr false
      rw [find_keptOf hrep] at hfirst
      exact hfirst
    · intro hsame
      refine ⟨_, hok, fun addr networkOrder => ?_⟩
      rw [find_keptOf hrep]
      exact hsame _
  · refine iff_of_false ?_ fun hcond => halong hcond.1
    rintro ⟨bl', hread, -⟩
    rw [hnone] at hread
    cases hread

/-- A subnetwork after a larger network, and an address of it, whose rule is dropped. -/
def subnetwork : List Char :=
  (" deny 10.0.0.0/8\nallow 192.168.1.0/24 ;; allow all IPs in subnetwork\n" ++
    "deny 192.168.1.7\ndeny all\n").toList

theorem readRules_subnetwork :
    ((create 100 5 300).readRules subnetwork).map (fun r => r.1.isOk) = some true := by
  rfl

theorem decidesFirst_subnetwork : DecidesFirst (create 100 5 300) subnetwork := by
  refine (decidesFirst_iff 100 5 300 subnetwork fun what bl' herror => ?_).mpr ⟨?_, ?_⟩
  · have hok := readRules_subnetwork
    rw [herror] at hok
    cases hok
  · exact along_fitsKept (by decide +kernel) fun k hk => by cases hk
  · exact redundant_of_covered _ (by decide +kernel)

/-- A broad rule after a narrow one. -/
def narrowFirst : List Char := "allow 10.0.0.0/16\ndeny 10.0.0.0/8\n".toList

theorem readRules_narrowFirst :
    ((create 100 5 300).readRules narrowFirst).map
      (fun r => (r.1.isOk, (r.2.find 0x0a020001#32 false).2)) = some (true, true) := by
  rfl

theorem firstMatch_narrowFirst :
    firstMatch (fileRules narrowFirst) ((fileDefault narrowFirst).getD true) 0x0a020001#32
      = false := by
  rfl

/-- The file is accepted, the broad rule is dropped, and the addresses that only it has are
allowed. -/
theorem not_decidesFirst_narrowFirst :
    (∀ what bl', (create 100 5 300).readRules narrowFirst ≠ some (.error what, bl')) ∧
      ¬ DecidesFirst (create 100 5 300) narrowFirst := by
  have hread := readRules_narrowFirst
  constructor
  · intro what bl' herror
    rw [herror] at hread
    cases hread
  · rintro ⟨bl', hok, hdecides⟩
    have hdeny := hdecides 0x0a020001#32 false
    rw [show hostOrder 0x0a020001#32 false = 0x0a020001#32 from rfl,
      firstMatch_narrowFirst] at hdeny
    rw [hok, Option.map_some, hdeny] at hread
    cases hread

/-! ## Reading the rules again -/

theorem find_fst_congr {bl₂ : BlackList} (h : bl.table = bl₂.table) (addr : BitVec 32)
    (networkOrder : Bool) : (bl.find addr networkOrder).1 = (bl₂.find addr networkOrder).1 := by
  rw [find, find, h]
  cases bl₂.table.longestMatch ⟨hostOrder addr networkOrder, 32⟩ <;> rfl

/-- What a rule does to the table is up to the table alone. -/
theorem addRule_congr {bl₂ bl' : BlackList} (h : bl.table = bl₂.table) {allow : Bool}
    {ip : List Char} {len line : ℕ} (hadd : bl.addRule allow ip len line = some (.ok (), bl')) :
    ∃ bl₂', bl₂.addRule allow ip len line = some (.ok (), bl₂') ∧ bl'.table = bl₂'.table := by
  rw [addRule] at hadd ⊢
  cases haddr : inetAton ip with
  | none =>
    rw [haddr] at hadd
    cases hadd
  | some addr =>
    rw [haddr] at hadd
    dsimp only at hadd ⊢
    rw [find_fst_congr h, h] at hadd
    split at hadd
    · rename_i hfound
      cases hadd
      exact ⟨_, if_pos hfound, h⟩
    · rename_i hfound
      rw [if_neg hfound]
      obtain ⟨t, ht, heq⟩ := Option.map_eq_some_iff.mp hadd
      cases heq
      exact ⟨{ bl₂ with table := t }, by rw [ht, Option.map_some], rfl⟩

/-- So is what becomes of a file. -/
theorem readLines_congr {bl₂ bl' : BlackList} (h : bl.table = bl₂.table) {terminatorFound : Bool}
    {line : ℕ} {lines : List (List Char)}
    (hread : readLines bl terminatorFound line lines = some (.ok (), bl')) :
    ∃ bl₂', readLines bl₂ terminatorFound line lines = some (.ok (), bl₂') ∧
      bl'.table = bl₂'.table := by
  induction lines generalizing bl bl₂ terminatorFound line with
  | nil =>
    cases hread
    exact ⟨bl₂, rfl, h⟩
  | cons s lines ih =>
    rw [readLines] at hread ⊢
    dsimp only at hread ⊢
    generalize trim (removeComment s) = s at hread ⊢
    by_cases hempty : s.isEmpty = true
    · rw [if_pos hempty] at hread ⊢
      exact ih h hread
    · rw [if_neg hempty] at hread ⊢
      cases terminatorFound with
      | true =>
        cases hread
        exact ⟨_, rfl, h⟩
      | false =>
        rw [if_neg Bool.false_ne_true] at hread ⊢
        match hrule : matchRule s with
        | none =>
          rw [hrule] at hread
          cases hread
        | some (allow, none) =>
          -- a rule for all addresses sets the default, and no entry of the table
          rw [hrule] at hread
          have hset : { bl with defaultAllow := allow }.table
              = { bl₂ with defaultAllow := allow }.table := h
          exact ih hset hread
        | some (allow, some (ip, digits)) =>
          rw [hrule] at hread
          dsimp only at hread ⊢
          split at hread
          · cases hread
          · rename_i hlen
            rw [if_neg hlen]
            split at hread
            · rename_i bl₁ hadd
              obtain ⟨bl₃, hadd₂, htable⟩ := addRule_congr h hadd
              rw [hadd₂]
              exact ih htable hread
            · rename_i hno
              exact absurd hread (hno bl')

/-- The rules of a file that are kept have every address. -/
def KeptHaveAll (text : List Char) : Prop := ∀ addr, ∃ r ∈ keptOf (fileRules text), r.Contains addr

/-- The default is of use only where no rule that is kept has the address. -/
theorem decision_default_iff (kept : List Rule) (default default' : Bool) (addr : BitVec 32) :
    decision (tableOf kept) default addr = decision (tableOf kept) default' addr ↔
      default = default' ∨ ∃ r ∈ kept, r.Contains addr := by
  rw [← longest_isSome_iff, decision, decision]
  cases (tableOf kept).longest (word addr) with
  | none => simp
  | some allow => simp

/-- After the file is read, `find` says what it says in a new blacklist that has read the file. -/
def SameAsNew (bl : BlackList) (text : List Char) : Prop :=
  ∀ requestsPerSec windowSizeSec banIpSec, ∃ bl' new,
    bl.readRules text = some (.ok (), bl') ∧
    (create requestsPerSec windowSizeSec banIpSec).readRules text = some (.ok (), new) ∧
    ∀ addr networkOrder, bl'.find addr networkOrder = new.find addr networkOrder

/-- What `find` says after a file that is accepted. -/
theorem find_readRules {bl' : BlackList} {text : List Char}
    (hread : bl.readRules text = some (.ok (), bl')) (addr : BitVec 32) (networkOrder : Bool) :
    bl'.find addr networkOrder = decision (tableOf (keptOf (fileRules text)))
      ((fileDefault text).getD bl.defaultAllow) (hostOrder addr networkOrder) := by
  rcases readRules_spec bl text with ⟨what, bl₁, herror⟩ | ⟨-, t, w, hok, hrep⟩ | ⟨-, hnone⟩
  · rw [herror] at hread
    cases hread
  · rw [hok] at hread
    cases hread
    exact find_eq_decision hrep addr networkOrder
  · rw [hnone] at hread
    cases hread

/-- **The default is not reset**: it stays the one of an earlier file, unless this file has a rule
for all addresses or its other rules have them all. -/
theorem sameAsNew_iff (bl bl' : BlackList) (text : List Char)
    (hread : bl.readRules text = some (.ok (), bl')) :
    SameAsNew bl text ↔
      bl.defaultAllow = true ∨ (fileDefault text).isSome ∨ KeptHaveAll text := by
  -- a new blacklist accepts the file as well
  have hnew : ∀ r w b, ∃ new, (create r w b).readRules text = some (.ok (), new) := by
    intro r w b
    have htable : { bl with table := .nil }.table = { create r w b with table := .nil }.table := rfl
    obtain ⟨new, h, -⟩ := readLines_congr htable hread
    exact ⟨new, h⟩
  have hsame : SameAsNew bl text ↔ ∀ addr,
      (fileDefault text).getD bl.defaultAllow = (fileDefault text).getD true ∨
        ∃ r ∈ keptOf (fileRules text), r.Contains addr := by
    constructor
    · intro h addr
      obtain ⟨bl₁, new, hread₁, hreadNew, hfind⟩ := h 0 0 0
      rw [← decision_default_iff]
      have haddr := hfind addr false
      rw [find_readRules hread₁, find_readRules hreadNew] at haddr
      exact haddr
    · intro h r w b
      obtain ⟨new, hreadNew⟩ := hnew r w b
      refine ⟨bl', new, hread, hreadNew, fun addr networkOrder => ?_⟩
      rw [find_readRules hread, find_readRules hreadNew]
      exact (decision_default_iff _ _ _ _).mpr (h _)
  rw [hsame]
  cases fileDefault text with
  | some allow => simp
  | none =>
    rw [Option.getD_none, Option.getD_none, forall_or_left]
    simp [KeptHaveAll]

/-- A file that denies all, and one whose rule is for a few addresses only. -/
def denyAll : List Char := "deny all\n".toList
def allowTen : List Char := "allow 10.0.0.0/8\n".toList

theorem readRules_denyAll : ((create 100 5 300).readRules denyAll).map
    (fun r => (r.1.isOk, r.2.bannedIPs.isEmpty)) = some (true, true) := by
  rfl

theorem find_allowTen_new : ((create 100 5 300).readRules allowTen).map
    (fun r => (r.1.isOk, r.2.find 0x0b000001#32 false)) = some (true, false, true) := by
  rfl

theorem find_allowTen_denyAll :
    (((create 100 5 300).readRules denyAll).bind fun r => r.2.readRules allowTen).map
      (fun r => (r.1.isOk, r.2.find 0x0b000001#32 false)) = some (true, false, false) := by
  rfl

/-- What is known of a reading that is fine. -/
theorem exists_ok {α : Type*} {r : Option (Except String Unit × BlackList)} (f : BlackList → α)
    {a : α} (h : r.map (fun r => (r.1.isOk, f r.2)) = some (true, a)) :
    ∃ bl, r = some (.ok (), bl) ∧ f bl = a := by
  obtain ⟨⟨how, bl⟩, rfl, hr⟩ := Option.map_eq_some_iff.mp h
  cases how with
  | error what => cases congrArg Prod.fst hr
  | ok => exact ⟨bl, rfl, congrArg Prod.snd hr⟩

/-- A blacklist that has read another file. -/
theorem sameAsNew_iff_allowTen : ∃ bl,
    (create 100 5 300).readRules denyAll = some (.ok (), bl) ∧
      (SameAsNew bl allowTen ↔
        bl.defaultAllow = true ∨ (fileDefault allowTen).isSome ∨ KeptHaveAll allowTen) := by
  obtain ⟨bl, hdeny, -⟩ := exists_ok (fun bl => bl.bannedIPs.isEmpty) readRules_denyAll
  have hfind := find_allowTen_denyAll
  rw [hdeny, Option.bind_some] at hfind
  obtain ⟨bl', hread, -⟩ := exists_ok (fun bl => bl.find 0x0b000001#32 false) hfind
  exact ⟨bl, hdeny, sameAsNew_iff bl bl' allowTen hread⟩

/-- After the first file, the addresses that the second one does not name stay denied. -/
theorem not_sameAsNew_allowTen : ∃ bl bl',
    (create 100 5 300).readRules denyAll = some (.ok (), bl) ∧ bl.bannedIPs = [] ∧
      bl.readRules allowTen = some (.ok (), bl') ∧ ¬ SameAsNew bl allowTen := by
  obtain ⟨bl, hdeny, hempty⟩ := exists_ok (fun bl => bl.bannedIPs.isEmpty) readRules_denyAll
  have hfind := find_allowTen_denyAll
  rw [hdeny, Option.bind_some] at hfind
  obtain ⟨bl', hread, hdenied⟩ := exists_ok (fun bl => bl.find 0x0b000001#32 false) hfind
  refine ⟨bl, bl', hdeny, List.isEmpty_iff.mp hempty, hread, fun hsame => ?_⟩
  obtain ⟨bl₁, new, hread₁, hreadNew, hsame⟩ := hsame 100 5 300
  obtain ⟨new', hreadNew', hallowed⟩ :=
    exists_ok (fun bl => bl.find 0x0b000001#32 false) find_allowTen_new
  rw [hread] at hread₁
  cases hread₁
  rw [hreadNew] at hreadNew'
  cases hreadNew'
  have haddr := hsame 0x0b000001#32 false
  rw [hdenied, hallowed] at haddr
  cases haddr

end BlackList
