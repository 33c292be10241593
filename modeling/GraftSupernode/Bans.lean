/-
# Bans

A run of `processIp`, with a log of the bans that it triggers: when each one ends, and of which
address.  A ban is an entry for the address in the table of the rules, and `unban` takes the entry
out when the ban is over.  So long as no address with a rule of its own is banned,

* the calls for an address with a running ban are denied;
* after each call, `find` gives every other address the decision of the rules.

An address with a rule of its own keeps its rule while it is banned, and has none after that.
-/
import GraftSupernode.LongestPrefix

namespace BlackList

/-- A call of `processIp`, and what it reads from the clock. -/
structure Visit where
  addr : BitVec 32
  networkOrder : Bool
  clock : Clock

def Visit.host (v : Visit) : BitVec 32 := hostOrder v.addr v.networkOrder

/-- The blacklist without the bans that are over; how `processIp` begins. -/
def lifted (bl : BlackList) (now : ℤ) : BlackList :=
  if bl.banEnabled && bl.banTimeout ≠ 0 then bl.unban now else bl

/-- The call is one too many: it bans the address. -/
def triggers (bl : BlackList) (v : Visit) : Bool :=
  ((bl.lifted v.clock.unban).find v.host false).2 && bl.banEnabled &&
    ((bl.lifted v.clock.unban).ipmap.inc v.host v.clock.inc).1

/-- A blacklist with the log of the bans, and the last reading of the clock. -/
structure BanLog where
  bl : BlackList
  bans : List (ℤ × BitVec 32)
  now : ℤ

namespace BanLog

/-- The log after a call. -/
def visitBans (s : BanLog) (v : Visit) : List (ℤ × BitVec 32) :=
  if s.bl.triggers v then s.bans ++ [(v.clock.ban + s.bl.banTimeout, v.host)] else s.bans

/-- A call, and whether the address may connect. -/
def visit (s : BanLog) (v : Visit) : Option (Bool × BanLog) :=
  (s.bl.processIp v.addr v.networkOrder v.clock).map fun r =>
    (r.1, ⟨r.2, s.visitBans v, v.clock.ban⟩)

def step (s : BanLog) (v : Visit) : BanLog := ((s.visit v).map Prod.snd).getD s

/-- The address has a ban that is not over. -/
def Running (s : BanLog) (addr : BitVec 32) (time : ℤ) : Prop :=
  ∃ ban ∈ s.bans, ban.2 = addr ∧ time < ban.1

/-- The clock is steady. -/
structure Steady (s : BanLog) (v : Visit) : Prop where
  unban : s.now ≤ v.clock.unban
  inc : v.clock.unban ≤ v.clock.inc
  ban : v.clock.inc ≤ v.clock.ban

/-- What a call does with the bans, where `bl` is the blacklist before all of them. -/
structure Enforced (bl : BlackList) (s : BanLog) (v : Visit) : Prop where
  defined : (s.visit v).isSome
  denied : ∀ allowed s', s.visit v = some (allowed, s') →
    s.bl.triggers v ∨ s.Running v.host v.clock.unban → allowed = false
  transparent : ∀ allowed s', s.visit v = some (allowed, s') → ∀ addr networkOrder,
    ¬ s'.Running (hostOrder addr networkOrder) v.clock.unban →
      s'.bl.find addr networkOrder = bl.find addr networkOrder

/-- An address that is banned has no rule of its own. -/
def NoOwnRule (rules : PrefixTable Bool Bool) (s : BanLog) (v : Visit) : Prop :=
  s.bl.triggers v → rules (word v.host) = none

end BanLog

/-! ## The table of the rules and the bans -/

variable {bl : BlackList} {rules : PrefixTable Bool Bool} {banned : List (ℤ × BitVec 32)}

/-- The rules, and an entry for each address that is banned. -/
def withBans (rules : PrefixTable Bool Bool) (banned : List (ℤ × BitVec 32)) :
    PrefixTable Bool Bool :=
  fun q => if ∃ ban ∈ banned, word ban.2 = q then some false else rules q

theorem withBans_nil : withBans rules [] = rules := by
  funext q
  simp [withBans]

theorem withBans_of_mem {ban : ℤ × BitVec 32} (h : ban ∈ banned) :
    withBans rules banned (word ban.2) = some false := if_pos ⟨ban, h, rfl⟩

theorem withBans_word {addr : BitVec 32} (h : ∀ ban ∈ banned, ban.2 ≠ addr) :
    withBans rules banned (word addr) = rules (word addr) := by
  refine if_neg ?_
  rintro ⟨ban, hban, heq⟩
  exact h ban hban (word_injective heq)

/-- A banned address is denied. -/
theorem decision_of_banned {ban : ℤ × BitVec 32} (h : ban ∈ banned) (default : Bool) :
    decision (withBans rules banned) default ban.2 = (true, false) := by
  rw [decision, PrefixTable.longest_of_value (withBans_of_mem h)]

/-- The bans do not matter to other addresses. -/
theorem decision_of_not_banned {addr : BitVec 32} (h : ∀ ban ∈ banned, ban.2 ≠ addr)
    (default : Bool) :
    decision (withBans rules banned) default addr = decision rules default addr := by
  have hlongest : (withBans rules banned).longest (word addr) = rules.longest (word addr) := by
    refine PrefixTable.longest_congr fun q hq => if_neg ?_
    rintro ⟨ban, hban, rfl⟩
    have hword := hq.eq_of_length (by rw [length_word, length_word])
    exact h ban hban (word_injective hword)
  rw [decision, decision, hlongest]

/-- Lifting a ban. -/
theorem erase_withBans {ban : ℤ × BitVec 32} (hnew : ban.2 ∉ banned.map Prod.snd)
    (hown : rules (word ban.2) = none) :
    (withBans rules (ban :: banned)).erase (word ban.2) = withBans rules banned := by
  have hne : ∀ ban' ∈ banned, ban'.2 ≠ ban.2 := by
    intro ban' hmem heq
    exact hnew (heq ▸ List.mem_map_of_mem hmem)
  funext q
  rw [PrefixTable.erase]
  by_cases hq : q = word ban.2
  · rw [hq, Function.update_self, withBans_word hne, hown]
  · rw [Function.update_of_ne hq]
    simp only [withBans, List.exists_mem_cons_iff, Ne.symm hq, false_or]

/-- A new ban. -/
theorem insertNew_withBans {ban : ℤ × BitVec 32} (hnew : ∀ ban' ∈ banned, ban'.2 ≠ ban.2)
    (hown : rules (word ban.2) = none) :
    (withBans rules banned).insertNew (word ban.2) false = withBans rules (banned ++ [ban]) := by
  have hnone : withBans rules banned (word ban.2) = none := by rw [withBans_word hnew, hown]
  rw [PrefixTable.insertNew, hnone, Option.isSome_none, if_neg Bool.false_ne_true]
  funext q
  by_cases hq : q = word ban.2
  · rw [hq, Function.update_self, withBans_of_mem (List.mem_append_right _ List.mem_cons_self)]
  · rw [Function.update_of_ne hq]
    have hiff : (∃ ban' ∈ banned ++ [ban], word ban'.2 = q) ↔ ∃ ban' ∈ banned, word ban'.2 = q := by
      simp [or_and_right, exists_or, Ne.symm hq]
    simp only [withBans, hiff]

/-! ## The bans that are running -/

/-- The bans of a blacklist: each of another address, with no rule of its own, and the first one to
end in front. -/
structure Banned (rules : PrefixTable Bool Bool) (banned : List (ℤ × BitVec 32)) : Prop where
  sorted : banned.Pairwise fun ban ban' => ban.1 ≤ ban'.1
  nodup : (banned.map Prod.snd).Nodup
  own : ∀ ban ∈ banned, rules (word ban.2) = none

theorem Banned.filter (h : Banned rules banned) (p : ℤ × BitVec 32 → Bool) :
    Banned rules (banned.filter p) where
  sorted := h.sorted.filter p
  nodup := h.nodup.sublist (List.filter_sublist.map Prod.snd)
  own ban hban := h.own ban (List.mem_of_mem_filter hban)

theorem Banned.append {ban : ℤ × BitVec 32} (h : Banned rules banned)
    (hlast : ∀ ban' ∈ banned, ban'.1 ≤ ban.1) (hnew : ∀ ban' ∈ banned, ban'.2 ≠ ban.2)
    (hown : rules (word ban.2) = none) : Banned rules (banned ++ [ban]) where
  sorted := by
    rw [List.pairwise_append]
    refine ⟨h.sorted, List.pairwise_singleton _ _, fun ban₁ h₁ ban₂ h₂ => ?_⟩
    rw [List.mem_singleton.mp h₂]
    exact hlast ban₁ h₁
  nodup := by
    rw [List.map_append, List.nodup_append]
    refine ⟨h.nodup, List.nodup_singleton _, fun addr₁ h₁ addr₂ h₂ => ?_⟩
    obtain ⟨ban', hban', rfl⟩ := List.mem_map.mp h₁
    rw [List.map_singleton, List.mem_singleton] at h₂
    rw [h₂]
    exact hnew ban' hban'
  own ban' hban' := by
    rcases List.mem_append.mp hban' with hmem | hmem
    · exact h.own ban' hmem
    · rw [List.mem_singleton.mp hmem]
      exact hown

/-- **The loop of `unban`** takes out the bans that are over, and no rule. -/
theorem unbanLoop_spec {now : ℤ} (h : RadixTree.Represents bl.table (withBans rules banned))
    (hbanned : Banned rules banned) :
    ∃ t, unbanLoop now banned bl
        = { bl with table := t, bannedIPs := banned.filter fun ban => now < ban.1 } ∧
      RadixTree.Represents t (withBans rules (banned.filter fun ban => now < ban.1)) := by
  induction banned generalizing bl with
  | nil => exact ⟨bl.table, rfl, h⟩
  | cons ban banned ih =>
    rw [unbanLoop]
    by_cases hover : now < ban.1
    · -- the bans behind end later
      have hall : (ban :: banned).filter (fun ban => now < ban.1) = ban :: banned := by
        rw [List.filter_eq_self]
        intro ban' hmem
        apply decide_eq_true
        rcases List.mem_cons.mp hmem with rfl | hmem
        · exact hover
        · exact hover.trans_le (List.rel_of_pairwise_cons hbanned.sorted hmem)
      rw [if_pos hover, hall]
      exact ⟨bl.table, rfl, h⟩
    · have hfilter : (ban :: banned).filter (fun ban => now < ban.1)
          = banned.filter fun ban => now < ban.1 :=
        List.filter_cons_of_neg (by simpa using hover)
      have hnodup := hbanned.nodup
      rw [List.map_cons, List.nodup_cons] at hnodup
      have hremoved := removeEntry_spec h ban.2 false
      rw [show hostOrder ban.2 false = ban.2 from rfl,
        erase_withBans hnodup.1 (hbanned.own ban List.mem_cons_self)] at hremoved
      rw [if_neg hover, hfilter]
      refine ih hremoved ⟨hbanned.sorted.of_cons, hnodup.2, fun ban' hmem => ?_⟩
      exact hbanned.own ban' (List.mem_cons_of_mem _ hmem)

/-- **`ban`**: an entry for the address, and a note to take it out. -/
theorem ban_spec {addr : BitVec 32} {now : ℤ}
    (h : RadixTree.Represents bl.table (withBans rules banned))
    (hnew : ∀ ban ∈ banned, ban.2 ≠ addr) (hown : rules (word addr) = none)
    (hpos : 0 < bl.banTimeout) :
    ∃ t, bl.ban addr now = some { bl with
        table := t, bannedIPs := bl.bannedIPs ++ [(now + bl.banTimeout, addr)] } ∧
      RadixTree.Represents t (withBans rules (banned ++ [(now + bl.banTimeout, addr)])) := by
  have hmasked : RtEntry.Masked ⟨hostOrder addr false, 32⟩ := RtEntry.masked_address addr
  have hadd := addEntry_spec h false hmasked (by decide)
  rcases hadd with ⟨-, t, ht, hrep⟩ | ⟨hfits, -⟩
  · refine ⟨t, ?_, ?_⟩
    · rw [ban, ht, Option.map_some]
      exact congrArg some (if_neg hpos.ne')
    · rw [show hostOrder addr false = addr from rfl, RtEntry.bits_address] at hrep
      have hinsert := @insertNew_withBans rules banned (now + bl.banTimeout, addr) hnew hown
      rwa [← hinsert]
  · exact absurd (fitsIn_address _ _) hfits

/-! ## A call -/

theorem unbanLoop_banEnabled (now : ℤ) (items : List (ℤ × BitVec 32)) (bl : BlackList) :
    (unbanLoop now items bl).banEnabled = bl.banEnabled := by
  induction items generalizing bl with
  | nil => rfl
  | cons item items ih =>
    rw [unbanLoop]
    split
    · rfl
    · exact ih (bl.removeEntry item.2 false)

theorem lifted_banEnabled (bl : BlackList) (now : ℤ) :
    (bl.lifted now).banEnabled = bl.banEnabled := by
  rw [lifted]
  split
  · exact unbanLoop_banEnabled now bl.bannedIPs bl
  · rfl

/-- **What a call does** after the bans that are over are lifted. -/
theorem processIp_cases (bl : BlackList) (v : Visit) :
    (bl.triggers v = true ∧ ∃ ipmap, bl.processIp v.addr v.networkOrder v.clock =
      (ban { bl.lifted v.clock.unban with ipmap := ipmap } v.host v.clock.ban).map (false, ·)) ∨
    (bl.triggers v = false ∧ ∃ ipmap, bl.processIp v.addr v.networkOrder v.clock =
      some (((bl.lifted v.clock.unban).find v.host false).2,
        { bl.lifted v.clock.unban with ipmap := ipmap })) := by
  have heq : bl.processIp v.addr v.networkOrder v.clock =
      if !((bl.lifted v.clock.unban).find v.host false).2 then some (false, bl.lifted v.clock.unban)
      else if !(bl.lifted v.clock.unban).banEnabled then some (true, bl.lifted v.clock.unban)
      else
        if ((bl.lifted v.clock.unban).ipmap.inc v.host v.clock.inc).1 then
          (ban { bl.lifted v.clock.unban with
            ipmap := ((bl.lifted v.clock.unban).ipmap.inc v.host v.clock.inc).2 }
            v.host v.clock.ban).map (false, ·)
        else some (true, { bl.lifted v.clock.unban with
          ipmap := ((bl.lifted v.clock.unban).ipmap.inc v.host v.clock.inc).2 }) := rfl
  rw [heq, lifted_banEnabled, triggers]
  generalize bl.lifted v.clock.unban = bl'
  cases hfind : (bl'.find v.host false).2 with
  | false => exact .inr ⟨rfl, bl'.ipmap, rfl⟩
  | true =>
    cases bl.banEnabled with
    | false => exact .inr ⟨rfl, bl'.ipmap, rfl⟩
    | true =>
      cases (bl'.ipmap.inc v.host v.clock.inc).1 with
      | true => exact .inl ⟨rfl, _, rfl⟩
      | false => exact .inr ⟨rfl, _, rfl⟩

namespace BanLog

/-- The bans of the log that are not over. -/
def running (s : BanLog) (time : ℤ) : List (ℤ × BitVec 32) :=
  s.bans.filter fun ban => time < ban.1

theorem mem_running {s : BanLog} {time : ℤ} {ban : ℤ × BitVec 32} :
    ban ∈ s.running time ↔ ban ∈ s.bans ∧ time < ban.1 := by
  rw [running, List.mem_filter, decide_eq_true_eq]

/-- What holds between the calls: the table is that of the rules and of the bans that ran at some
earlier time. -/
structure Inv (default : Bool) (rules : PrefixTable Bool Bool) (s : BanLog) : Prop where
  table : RadixTree.Represents s.bl.table (withBans rules s.bl.bannedIPs)
  banned : Banned rules s.bl.bannedIPs
  le : ∀ ban ∈ s.bl.bannedIPs, ban.1 ≤ s.now + s.bl.banTimeout
  current : ∃ time ≤ s.now, s.bl.bannedIPs = s.running time
  disabled : s.bl.banEnabled = false → s.bans = []
  defaultAllow : s.bl.defaultAllow = default
  banTimeout : 0 < s.bl.banTimeout

variable {default : Bool} {s : BanLog} {v : Visit}

theorem Inv.filter_bannedIPs (h : Inv default rules s) {time : ℤ} (htime : s.now ≤ time) :
    s.bl.bannedIPs.filter (fun ban => time < ban.1) = s.running time := by
  obtain ⟨time', hle, heq⟩ := h.current
  rw [heq, running, running, List.filter_filter]
  refine List.filter_congr fun ban _ => ?_
  rw [Bool.and_eq_left_iff_imp, decide_eq_true_eq, decide_eq_true_eq]
  intro hlt
  omega

/-- **Lifting the bans** that are over leaves those that are running. -/
theorem Inv.lifted (h : Inv default rules s) {time : ℤ} (htime : s.now ≤ time) :
    ∃ t, s.bl.lifted time = { s.bl with table := t, bannedIPs := s.running time } ∧
      RadixTree.Represents t (withBans rules (s.running time)) := by
  rw [BlackList.lifted]
  by_cases henabled : s.bl.banEnabled = true
  · have hne : s.bl.banTimeout ≠ 0 := h.banTimeout.ne'
    rw [henabled, decide_eq_true hne, Bool.and_self, if_pos rfl, unban, ← h.filter_bannedIPs htime]
    exact unbanLoop_spec h.table h.banned
  · have hdisabled := (Bool.not_eq_true _).mp henabled
    have hnil : s.bl.bannedIPs = [] := by
      obtain ⟨time', -, heq⟩ := h.current
      rw [heq, running, h.disabled hdisabled, List.filter_nil]
    have hrunning : s.running time = s.bl.bannedIPs := by
      rw [running, h.disabled hdisabled, List.filter_nil, hnil]
    rw [hdisabled, Bool.false_and, if_neg Bool.false_ne_true, hrunning]
    exact ⟨s.bl.table, rfl, h.table⟩

theorem Inv.banned_running (h : Inv default rules s) {time : ℤ} (htime : s.now ≤ time) :
    Banned rules (s.running time) := by
  rw [← h.filter_bannedIPs htime]
  exact h.banned.filter _

theorem Inv.running_le (h : Inv default rules s) {time : ℤ} (htime : s.now ≤ time) :
    ∀ ban ∈ s.running time, ban.1 ≤ s.now + s.bl.banTimeout := by
  intro ban hban
  rw [← h.filter_bannedIPs htime] at hban
  exact h.le ban (List.mem_of_mem_filter hban)

/-- An address is allowed when a call bans it, and so it was not banned before. -/
theorem Inv.not_banned_of_triggers (h : Inv default rules s) (hsteady : Steady s v)
    (htriggers : s.bl.triggers v = true) :
    ∀ ban ∈ s.running v.clock.unban, ban.2 ≠ v.host := by
  obtain ⟨t, hlifted, hrep⟩ := h.lifted hsteady.unban
  rw [triggers, Bool.and_eq_true, Bool.and_eq_true, hlifted] at htriggers
  obtain ⟨⟨hallowed, -⟩, -⟩ := htriggers
  rw [find_eq_decision hrep, show hostOrder v.host false = v.host from rfl] at hallowed
  intro ban hban heq
  rw [← heq, decision_of_banned hban] at hallowed
  cases hallowed

/-- A call that bans its address. -/
theorem Inv.visit_of_triggers (h : Inv default rules s) (hsteady : Steady s v)
    (hown : rules (word v.host) = none) (htriggers : s.bl.triggers v = true) :
    ∃ s', s.visit v = some (false, s') ∧ Inv default rules s' ∧
      s'.bl.bannedIPs = s'.running v.clock.unban := by
  obtain ⟨t, hlifted, hrep⟩ := h.lifted hsteady.unban
  have hbanned := h.banned_running hsteady.unban
  have hle := h.running_le hsteady.unban
  have hinc := hsteady.inc
  have hban := hsteady.ban
  have hunban := hsteady.unban
  have hpos := h.banTimeout
  have hnew := h.not_banned_of_triggers hsteady htriggers
  rcases processIp_cases s.bl v with ⟨-, ipmap, hprocess⟩ | ⟨hnot, -⟩
  · rw [hlifted] at hprocess
    let bl := { s.bl with table := t, bannedIPs := s.running v.clock.unban, ipmap := ipmap }
    have hrep' : RadixTree.Represents bl.table (withBans rules (s.running v.clock.unban)) := hrep
    obtain ⟨t', ht', hrep'⟩ := @ban_spec bl rules (s.running v.clock.unban) v.host v.clock.ban
      hrep' hnew hown hpos
    have hvisit : s.visit v = some (false, ⟨{ s.bl with
        table := t'
        ipmap := ipmap
        bannedIPs := s.running v.clock.unban ++ [(v.clock.ban + s.bl.banTimeout, v.host)] },
        s.bans ++ [(v.clock.ban + s.bl.banTimeout, v.host)], v.clock.ban⟩) := by
      rw [BanLog.visit, hprocess, ht', visitBans, htriggers]
      rfl
    -- the new ban ends last, so that the list stays sorted
    have hlast : ∀ ban ∈ s.running v.clock.unban, ban.1 ≤ v.clock.ban + s.bl.banTimeout :=
      fun ban hmem => (hle ban hmem).trans (by omega)
    have hafter : v.clock.unban < v.clock.ban + s.bl.banTimeout := by omega
    have hrunning : s.running v.clock.unban ++ [(v.clock.ban + s.bl.banTimeout, v.host)] =
        (s.bans ++ [(v.clock.ban + s.bl.banTimeout, v.host)]).filter
          fun ban => v.clock.unban < ban.1 := by
      rw [List.filter_append, List.filter_singleton, decide_eq_true hafter]
      rfl
    refine ⟨_, hvisit, ?_, hrunning⟩
    refine ⟨hrep', hbanned.append hlast hnew hown, fun ban hmem => ?_,
      ⟨v.clock.unban, by dsimp only; omega, hrunning⟩, fun hdisabled => ?_, h.defaultAllow, hpos⟩
    · rcases List.mem_append.mp hmem with hmem | hmem
      · exact hlast ban hmem
      · rw [List.mem_singleton.mp hmem]
    · rw [triggers, show s.bl.banEnabled = false from hdisabled] at htriggers
      simp at htriggers
  · rw [htriggers] at hnot
    cases hnot

/-- A call that bans nobody: it answers what the table says, and an address that is banned gets
no. -/
theorem Inv.visit_of_not_triggers (h : Inv default rules s) (hsteady : Steady s v)
    (htriggers : s.bl.triggers v = false) :
    ∃ allowed s', s.visit v = some (allowed, s') ∧ Inv default rules s' ∧
      s'.bl.bannedIPs = s'.running v.clock.unban ∧
      (s.Running v.host v.clock.unban → allowed = false) := by
  obtain ⟨t, hlifted, hrep⟩ := h.lifted hsteady.unban
  have hbanned := h.banned_running hsteady.unban
  have hle := h.running_le hsteady.unban
  have hinc := hsteady.inc
  have hban := hsteady.ban
  have hunban := hsteady.unban
  have hfind : (s.bl.lifted v.clock.unban).find v.host false =
      decision (withBans rules (s.running v.clock.unban)) s.bl.defaultAllow v.host := by
    rw [hlifted]
    exact find_eq_decision hrep v.host false
  rcases processIp_cases s.bl v with ⟨hyes, -⟩ | ⟨-, ipmap, hprocess⟩
  · rw [htriggers] at hyes
    cases hyes
  · have hvisit : s.visit v = some (((s.bl.lifted v.clock.unban).find v.host false).2,
        ⟨{ s.bl.lifted v.clock.unban with ipmap := ipmap }, s.bans, v.clock.ban⟩) := by
      rw [BanLog.visit, hprocess, visitBans, htriggers]
      rfl
    refine ⟨_, _, hvisit, ?_, ?_, ?_⟩
    · rw [hlifted]
      exact ⟨hrep, hbanned, fun ban hmem => (hle ban hmem).trans (by dsimp only; omega),
        ⟨v.clock.unban, by dsimp only; omega, rfl⟩, h.disabled, h.defaultAllow, h.banTimeout⟩
    · rw [hlifted]
      rfl
    · rintro ⟨ban, hmem, hhost, hlt⟩
      rw [hfind, ← hhost, decision_of_banned (mem_running.mpr ⟨hmem, hlt⟩)]

/-- **A call**: its answer, and the bans that are running after it. -/
theorem Inv.visit (h : Inv default rules s) (hsteady : Steady s v) (hown : NoOwnRule rules s v) :
    ∃ allowed s', s.visit v = some (allowed, s') ∧ Inv default rules s' ∧
      s'.bl.bannedIPs = s'.running v.clock.unban ∧
      (s.bl.triggers v ∨ s.Running v.host v.clock.unban → allowed = false) := by
  cases htriggers : s.bl.triggers v with
  | true =>
    obtain ⟨s', hvisit, hinv, hbans⟩ := h.visit_of_triggers hsteady (hown htriggers) htriggers
    exact ⟨false, s', hvisit, hinv, hbans, fun _ => rfl⟩
  | false =>
    obtain ⟨allowed, s', hvisit, hinv, hbans, hanswer⟩ := h.visit_of_not_triggers hsteady htriggers
    refine ⟨allowed, s', hvisit, hinv, hbans, ?_⟩
    rintro (hfalse | hrunning)
    · cases hfalse
    · exact hanswer hrunning

theorem inv_init (hrules : RadixTree.Represents bl.table rules) (hbans : bl.bannedIPs = [])
    (hpos : 0 < bl.banTimeout) (now : ℤ) : Inv bl.defaultAllow rules ⟨bl, [], now⟩ where
  table := by
    rw [hbans, withBans_nil]
    exact hrules
  banned := by
    rw [hbans]
    exact ⟨.nil, List.nodup_nil, fun _ hban => absurd hban List.not_mem_nil⟩
  le ban hban := by
    rw [hbans] at hban
    exact absurd hban List.not_mem_nil
  current := ⟨now, le_rfl, hbans⟩
  disabled _ := rfl
  defaultAllow := rfl
  banTimeout := hpos

theorem Inv.enforced {bl : BlackList} (h : Inv bl.defaultAllow rules s) (hsteady : Steady s v)
    (hown : NoOwnRule rules s v) (hrules : RadixTree.Represents bl.table rules) :
    Enforced bl s v := by
  obtain ⟨allowed, s', hvisit, hinv, hbanned, hdenied⟩ := h.visit hsteady hown
  refine ⟨by rw [hvisit]; rfl, fun allowed' s'' hvisit' => ?_, fun allowed' s'' hvisit' => ?_⟩
  · rw [hvisit] at hvisit'
    cases hvisit'
    exact hdenied
  · rw [hvisit] at hvisit'
    cases hvisit'
    intro addr networkOrder hrunning
    have hnot : ∀ ban ∈ s'.bl.bannedIPs, ban.2 ≠ hostOrder addr networkOrder := by
      intro ban hban heq
      rw [hbanned] at hban
      obtain ⟨hmem, hlt⟩ := mem_running.mp hban
      exact hrunning ⟨ban, hmem, heq, hlt⟩
    rw [find_eq_decision hinv.table, decision_of_not_banned hnot, find_eq_decision hrules,
      hinv.defaultAllow]

/-- **Bans are enforced and lifted** in every run in which no address with a rule of its own is
banned. -/
theorem enforced_of_noOwnRule {bl : BlackList} {rules : PrefixTable Bool Bool}
    (hrules : RadixTree.Represents bl.table rules) (hbans : bl.bannedIPs = [])
    (hpos : 0 < bl.banTimeout) (now : ℤ) (vs : List Visit)
    (hsteady : Runs.Along step Steady ⟨bl, [], now⟩ vs)
    (hown : Runs.Along step (NoOwnRule rules) ⟨bl, [], now⟩ vs) :
    Runs.Along step (Enforced bl) ⟨bl, [], now⟩ vs := by
  refine Runs.Along.of_invariant (I := Inv bl.defaultAllow rules) ?_ ?_
    (inv_init hrules hbans hpos now) (hsteady.and hown)
  · rintro s v h ⟨hsteady, hown⟩
    obtain ⟨allowed, s', hvisit, hinv, -, -⟩ := h.visit hsteady hown
    rw [step, hvisit]
    exact hinv
  · rintro s v h ⟨hsteady, hown⟩
    exact h.enforced hsteady hown hrules

/-- A request of 10.0.0.1. -/
def request (time : ℤ) : Visit := ⟨0x0a000001#32, false, ⟨seconds time, seconds time, seconds time⟩⟩

/-- Two requests in a second are one too many: the ban runs for a minute. -/
def requests : List Visit := [request 0, request 0, request 1, request 61]

theorem enforced_requests :
    Runs.Along step (Enforced (create 1 1 60)) ⟨create 1 1 60, [], 0⟩ requests := by
  refine enforced_of_noOwnRule (represents_create 1 1 60) rfl (by decide) 0 requests ?_
    (Runs.along_of_at_step fun _ _ _ _ _ => rfl)
  exact ⟨⟨by decide +kernel, le_rfl, le_rfl⟩, ⟨by decide +kernel, le_rfl, le_rfl⟩,
    ⟨by decide +kernel, le_rfl, le_rfl⟩, ⟨by decide +kernel, le_rfl, le_rfl⟩, trivial⟩

/-- The rules `allow 10.0.0.1` and `deny all`. -/
def ownRule : BlackList :=
  { ((create 1 1 60).addEntry 0x0a000001#32 false true 32).getD (create 1 1 60) with
    defaultAllow := false }

theorem steady_ownRule : Runs.Along step Steady ⟨ownRule, [], 0⟩ requests :=
  ⟨⟨by decide +kernel, le_rfl, le_rfl⟩, ⟨by decide +kernel, le_rfl, le_rfl⟩,
    ⟨by decide +kernel, le_rfl, le_rfl⟩, ⟨by decide +kernel, le_rfl, le_rfl⟩, trivial⟩

/-- The second request triggers a ban. -/
theorem bans_ownRule :
    (Runs.exec step ⟨ownRule, [], 0⟩ [request 0, request 0]).bans
      = [(seconds 60, 0x0a000001#32)] := by
  rfl

/-- While the ban is running the address may connect. -/
theorem visit_ownRule :
    ((Runs.exec step ⟨ownRule, [], 0⟩ [request 0, request 0]).visit (request 1)).map Prod.fst
      = some true := by
  rfl

/-- An address with a rule of its own is not banned, and when the ban is over its rule is gone. -/
theorem not_enforced_ownRule :
    Runs.Along step Steady ⟨ownRule, [], 0⟩ requests ∧
    ¬ Runs.Along step (Enforced ownRule) ⟨ownRule, [], 0⟩ requests ∧
    ownRule.find 0x0a000001#32 false = (true, true) ∧
    (Runs.exec step ⟨ownRule, [], 0⟩ requests).bl.find 0x0a000001#32 false = (false, false) := by
  refine ⟨steady_ownRule, fun h => ?_, by decide +kernel, by decide +kernel⟩
  have hsplit : Runs.Along step (Enforced ownRule) ⟨ownRule, [], 0⟩
      ([request 0, request 0] ++ request 1 :: [request 61]) := h
  have hthird := hsplit.at_step
  obtain ⟨⟨allowed, s'⟩, hvisit, rfl⟩ := Option.map_eq_some_iff.mp visit_ownRule
  have hrunning : (Runs.exec step ⟨ownRule, [], 0⟩ [request 0, request 0]).Running
      (request 1).host (request 1).clock.unban := by
    refine ⟨(seconds 60, 0x0a000001#32), ?_, rfl, by decide⟩
    rw [bans_ownRule]
    exact List.mem_cons_self
  have hfalse := hthird.denied true s' hvisit (.inr hrunning)
  cases hfalse

end BanLog

end BlackList
