import TruthTable.VarName
import TruthTable.Proofs.Outcome

/-!
# Proofs/DigitLimit — the names that can be put in order

The natural order reads the digit runs of a name as numbers, and no numeral past the digit limit is
read.  The runs that the name is cut at are as long as its digits allow, so a name passes exactly
when no stretch of it consists of more digits than the limit.

* `WithinLimit` — no stretch of digits is past the limit.
* `checked_eq_ok_iff`, `sortChecked_eq_ok_iff` — these are the names that pass.
-/

namespace TruthTable.VarName

open Text

/-- **No stretch of digits is past the limit.** -/
def WithinLimit (name : String) : Prop :=
  ∀ run, run <:+: name.toList → (∀ c ∈ run, isDigit c = true) → run.length ≤ Numeral.maxDigits

/-! ## The runs of a name -/

theorem runs_cons (c : Char) (cs : List Char) : runs (c :: cs) = (runs cs).cons c := rfl

/-- The runs behind a character are those behind the rest, unless it is a digit and starts the first
of them. -/
theorem mem_tail_cons {c : Char} {r : Runs} {p : List Char × List Char} (hp : p ∈ (r.cons c).tail) :
    p ∈ r.tail ∨ isDigit c = true ∧ (p.1 = [c] ∨ ∃ q ∈ r.tail, p.1 = c :: q.1) := by
  unfold Runs.cons at hp
  split at hp
  · rename_i hc
    split at hp
    · rename_i digits text tail _ htail
      rw [htail]
      rcases List.mem_cons.1 hp with rfl | hp
      · exact .inr ⟨hc, .inr ⟨(digits, text), by simp, rfl⟩⟩
      · exact .inl (List.mem_cons_of_mem _ hp)
    · rcases List.mem_cons.1 hp with rfl | hp
      · exact .inr ⟨hc, .inl rfl⟩
      · exact .inl hp
  · exact .inl hp

/-- A run of digits holds digits only. -/
theorem isDigit_of_mem_tail : ∀ {cs : List Char} {p : List Char × List Char},
    p ∈ (runs cs).tail → ∀ c ∈ p.1, isDigit c = true
  | c :: cs, p, hp => by
    rcases mem_tail_cons hp with hp | ⟨hc, hp | ⟨q, hq, hp⟩⟩
    · exact isDigit_of_mem_tail hp
    · simpa [hp] using hc
    · rw [hp]
      exact List.forall_mem_cons.2 ⟨hc, isDigit_of_mem_tail hq⟩

/-- A run of digits is a stretch of the pieces put together. -/
theorem infix_join {r : Runs} {p : List Char × List Char} (hp : p ∈ r.tail) : p.1 <:+: r.join := by
  obtain ⟨before, after, htail⟩ := List.append_of_mem hp
  refine ⟨r.head ++ before.flatMap fun p => p.1 ++ p.2,
    p.2 ++ after.flatMap fun p => p.1 ++ p.2, ?_⟩
  simp [Runs.join, htail]

/-- A character in front makes no run shorter. -/
theorem exists_mem_cons {c : Char} {r : Runs} {p : List Char × List Char} (hp : p ∈ r.tail) :
    ∃ q ∈ (r.cons c).tail, p.1.length ≤ q.1.length := by
  unfold Runs.cons
  split
  · split
    · rename_i digits text tail _ htail
      rw [htail] at hp
      rcases List.mem_cons.1 hp with rfl | hp
      · exact ⟨_, List.mem_cons_self, Nat.le_succ _⟩
      · exact ⟨p, List.mem_cons_of_mem _ hp, Nat.le_refl _⟩
    · exact ⟨p, List.mem_cons_of_mem _ hp, Nat.le_refl _⟩
  · exact ⟨p, hp, Nat.le_refl _⟩

/-- Digits in front are within the first run. -/
theorem exists_of_prefix : ∀ {run cs : List Char}, run ≠ [] → run <+: cs →
    (∀ c ∈ run, isDigit c = true) →
      ∃ p rest, runs cs = ⟨[], p :: rest⟩ ∧ run.length ≤ p.1.length
  | d :: run, cs, _, ⟨after, hcs⟩, hd => by
    subst hcs
    obtain ⟨hdigit, hd⟩ := List.forall_mem_cons.1 hd
    rw [List.cons_append, runs_cons]
    by_cases hrun : run = []
    · subst hrun
      unfold Runs.cons
      rw [if_pos hdigit]
      split
      · exact ⟨_, _, rfl, by simp⟩
      · exact ⟨_, _, rfl, by simp⟩
    · obtain ⟨p, rest, hruns, hle⟩ := exists_of_prefix hrun ⟨after, rfl⟩ hd
      rw [hruns, Runs.cons, if_pos hdigit]
      exact ⟨_, _, rfl, Nat.succ_le_succ hle⟩

/-- **A stretch of digits is within one of the runs.** -/
theorem exists_of_infix {run : List Char} (hrun : run ≠ []) (hd : ∀ c ∈ run, isDigit c = true) :
    ∀ {cs : List Char}, run <:+: cs → ∃ p ∈ (runs cs).tail, run.length ≤ p.1.length
  | [], h => absurd (List.infix_nil.1 h) hrun
  | c :: cs, h => by
    rcases List.infix_cons_iff.1 h with h | h
    · obtain ⟨p, rest, hruns, hle⟩ := exists_of_prefix hrun h hd
      exact ⟨p, by simp [hruns], hle⟩
    · obtain ⟨p, hp, hle⟩ := exists_of_infix hrun hd h
      obtain ⟨q, hq, hpq⟩ := exists_mem_cons hp
      exact ⟨q, hq, Nat.le_trans hle hpq⟩

/-! ## The check -/

theorem readNat_eq_ok_iff {digits : List Nat} {n : Nat} : Numeral.readNat digits = .ok n ↔
    digits.length ≤ Numeral.maxDigits ∧ n = Numeral.value digits := by
  unfold Numeral.readNat
  split
  · rename_i h
    simp [h, eq_comm]
  · rename_i h
    simp [h]

/-- **The names that pass the check** are those within the limit. -/
theorem checked_eq_ok_iff {name : String} : checked name = .ok () ↔ WithinLimit name := by
  have hruns : checked name = .ok () ↔
      ∀ p ∈ (runs name.toList).tail, p.1.length ≤ Numeral.maxDigits := by
    rw [checked, forM_eq_ok_iff]
    simp only [bind_eq_ok_iff, readNat_eq_ok_iff, List.length_map, pure, Except.pure]
    exact forall₂_congr fun p hp => by simp
  rw [hruns]
  constructor
  · intro h run hrun hd
    by_cases hnil : run = []
    · simp [hnil]
    · obtain ⟨p, hp, hle⟩ := exists_of_infix hnil hd hrun
      exact Nat.le_trans hle (h p hp)
  · exact fun h p hp => h p.1 (join_runs name.toList ▸ infix_join hp) (isDigit_of_mem_tail hp)

/-- A name past the limit has a numeral that is not read. -/
theorem checked_eq_error {name : String} {d : Numeral.LimitError} (h : checked name = .error d) :
    ∃ k, d = .reading k := by
  obtain ⟨p, -, h⟩ := exists_of_forM_eq_error h
  obtain h | ⟨_, -, h⟩ := bind_eq_error_iff.1 h
  · unfold Numeral.readNat at h
    split at h
    · nomatch h
    · exact ⟨_, (Except.error.inj h).symm⟩
  · nomatch h

instance decidableWithinLimit (name : String) : Decidable (WithinLimit name) :=
  decidable_of_iff _ checked_eq_ok_iff

/-- **Names are put in order** when each of them is within the limit. -/
theorem sortChecked_eq_ok_iff {names sorted : List String} :
    sortChecked names = .ok sorted ↔ (∀ n ∈ names, WithinLimit n) ∧ sort names = sorted := by
  have hall : names.forM checked = .ok () ↔ ∀ n ∈ names, WithinLimit n :=
    forM_eq_ok_iff.trans (forall₂_congr fun _ _ => checked_eq_ok_iff)
  rw [sortChecked, bind_eq_ok_iff, ← hall]
  exact ⟨fun ⟨_, h, hsort⟩ => ⟨h, Except.ok.inj hsort⟩, fun ⟨h, hsort⟩ => ⟨(), h, congrArg _ hsort⟩⟩

/-- **Names are not put in order** when one of them is past the limit. -/
theorem exists_sortChecked_error_iff {names : List String} :
    (∃ d, sortChecked names = .error d) ↔ ∃ n ∈ names, ¬ WithinLimit n := by
  have hok : (∃ sorted, sortChecked names = .ok sorted) ↔ ∀ n ∈ names, WithinLimit n := by
    simp only [sortChecked_eq_ok_iff, exists_and_left, exists_eq', and_true]
  have hnot : (∃ n ∈ names, ¬ WithinLimit n) ↔ ¬ ∃ sorted, sortChecked names = .ok sorted := by
    rw [hok]
    simp
  rw [hnot]
  cases sortChecked names <;> simp

theorem sortChecked_eq_error {names : List String} {d : Numeral.LimitError}
    (h : sortChecked names = .error d) : ∃ k, d = .reading k := by
  obtain h | ⟨_, -, h⟩ := bind_eq_error_iff.1 h
  · obtain ⟨n, -, h⟩ := exists_of_forM_eq_error h
    exact checked_eq_error h
  · nomatch h

end TruthTable.VarName
