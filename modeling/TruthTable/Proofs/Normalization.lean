import Mathlib.Data.List.Chain
import Mathlib.Data.List.DropRight
import TruthTable.Proofs.Identifier

/-!
# Proofs/Normalization — what normalization makes of a text

A normalized text is neat: its apostrophes are plain, and no white space is left in it but single
spaces between other characters.  A neat text is normalized already, so a second normalization
changes nothing.

* `Neat` — what can be seen of a normalized text.
* `neat_normalize`, `normalize_eq_self_iff` — normalized texts are the neat ones.
-/

namespace TruthTable

open Text

/-- **A neat text**: plain apostrophes, and as white space single spaces inside. -/
structure Neat (cs : List Char) : Prop where
  straight : ∀ c ∈ cs, straighten c = c
  spaced : ∀ c ∈ cs, isBlank c = true → c = ' '
  single : cs.IsChain fun c d => ¬ (c = ' ' ∧ d = ' ')
  first : cs.head? ≠ some ' '
  last : cs.getLast? ≠ some ' '

variable {cs : List Char}

theorem straighten_straighten (c : Char) : straighten (straighten c) = straighten c := by
  rcases straighten_eq c with h | h
  · rw [h, h]
  · rw [h]
    rfl

/-! ## Single spaces -/

theorem mem_of_mem_squeeze {c : Char} : ∀ {cs : List Char}, c ∈ squeeze cs → c = ' ' ∨ c ∈ cs
  | [], h => nomatch h
  | d :: cs, h => by
    unfold squeeze at h
    split at h
    · split at h
      · rename_i rest hrest
        exact (mem_of_mem_squeeze (hrest ▸ h : c ∈ squeeze cs)).imp_right (List.mem_cons_of_mem _)
      · rcases List.mem_cons.1 h with rfl | h
        · exact .inl rfl
        · exact (mem_of_mem_squeeze h).imp_right (List.mem_cons_of_mem _)
    · rcases List.mem_cons.1 h with rfl | h
      · exact .inr List.mem_cons_self
      · exact (mem_of_mem_squeeze h).imp_right (List.mem_cons_of_mem _)

/-- **No two spaces stand side by side** in a squeezed text. -/
theorem isChain_squeeze : ∀ cs : List Char,
    (squeeze cs).IsChain fun c d => ¬ (c = ' ' ∧ d = ' ')
  | [] => .nil
  | c :: cs => by
    have ih := isChain_squeeze cs
    unfold squeeze
    split
    · split
      · rename_i rest hrest
        exact hrest ▸ ih
      · rename_i hrest
        refine List.isChain_cons.2 ⟨fun d hd hspaces => ?_, ih⟩
        obtain ⟨rest, hcons⟩ := List.head?_eq_some_iff.1 hd
        exact hrest rest (hcons.trans (by rw [hspaces.2]))
    · rename_i hc
      refine List.isChain_cons.2 ⟨fun d _ hspaces => hc ?_, ih⟩
      rw [hspaces.1, isBlank_space]

/-- What is spaced by single spaces stays as it is. -/
theorem squeeze_eq_self : ∀ {cs : List Char}, (∀ c ∈ cs, isBlank c = true → c = ' ') →
    (cs.IsChain fun c d => ¬ (c = ' ' ∧ d = ' ')) → squeeze cs = cs
  | [], _, _ => rfl
  | c :: cs, hspaced, hsingle => by
    obtain ⟨hc, hcs⟩ := List.forall_mem_cons.1 hspaced
    obtain ⟨hfirst, hrest⟩ := List.isChain_cons.1 hsingle
    have ih := squeeze_eq_self hcs hrest
    unfold squeeze
    rw [ih]
    split
    next hblank =>
      obtain rfl := hc hblank
      split
      · exact absurd ⟨rfl, rfl⟩ (hfirst ' ' rfl)
      · rfl
    next => rfl

/-! ## The ends -/

theorem trim_isPrefix (p : Char → Bool) (cs : List Char) : trim p cs <+: cs.dropWhile p :=
  List.rdropWhile_prefix p _

theorem head?_trim {p : Char → Bool} {c : Char} (h : (trim p cs).head? = some c) :
    p c = false := by
  obtain ⟨rest, hrest⟩ := List.head?_eq_some_iff.1 h
  obtain ⟨more, hmore⟩ := hrest ▸ trim_isPrefix p cs
  have hstop := List.head?_dropWhile_not p cs
  rwa [← hmore] at hstop

theorem getLast?_trim {p : Char → Bool} {c : Char} (h : (trim p cs).getLast? = some c) :
    p c = false := by
  have hstop := List.head?_dropWhile_not p (cs.dropWhile p).reverse
  rw [trim, List.getLast?_reverse] at h
  rwa [h] at hstop

/-- What starts and ends with none of the characters stays as it is. -/
theorem trim_eq_self {p : Char → Bool} (hfirst : ∀ c ∈ cs.head?, p c = false)
    (hlast : ∀ c ∈ cs.getLast?, p c = false) : trim p cs = cs := by
  have hself {ds : List Char} (hds : ∀ c ∈ ds.head?, p c = false) : ds.dropWhile p = ds := by
    cases ds with
    | nil => rfl
    | cons d ds => exact List.dropWhile_cons_of_neg (by simp [hds d rfl])
  rw [← List.head?_reverse] at hlast
  rw [trim, hself hfirst, hself hlast, List.reverse_reverse]

/-! ## The whole text -/

/-- **A normalized text is neat.** -/
theorem neat_normalize (cs : List Char) : Neat (normalize cs) := by
  have hpart : normalize cs <:+: squeeze (cs.map straighten) :=
    (trim_isPrefix _ _).isInfix.trans (List.dropWhile_suffix _).isInfix
  constructor
  · intro c hc
    rcases mem_of_mem_squeeze (hpart.subset hc) with rfl | hmem
    · rfl
    · obtain ⟨d, -, rfl⟩ := List.mem_map.1 hmem
      exact straighten_straighten d
  · exact fun c hc => eq_space_of_mem_squeeze (hpart.subset hc)
  · exact List.IsChain.infix (isChain_squeeze _) hpart
  · exact fun h => (nomatch (head?_trim h).symm.trans isBlank_space)
  · exact fun h => (nomatch (getLast?_trim h).symm.trans isBlank_space)

/-- **The normalized texts are the neat ones.** -/
theorem normalize_eq_self_iff : normalize cs = cs ↔ Neat cs := by
  constructor
  · exact fun h => h ▸ neat_normalize cs
  · intro h
    have hstraight : cs.map straighten = cs.map id := List.map_inj_left.2 h.straight
    have hblank {c : Char} (hc : c ∈ cs) (hne : c ≠ ' ') : isBlank c = false := by
      by_contra hblank
      exact hne (h.spaced c hc (Bool.not_eq_false _ ▸ hblank))
    rw [normalize, hstraight, List.map_id, squeeze_eq_self h.spaced h.single]
    refine trim_eq_self (fun c hc => ?_) fun c hc => ?_
    · exact hblank (List.mem_of_mem_head? hc) fun hspace => h.first (hspace ▸ hc)
    · exact hblank (List.mem_of_getLast? hc) fun hspace => h.last (hspace ▸ hc)

/-- **A second normalization changes nothing.** -/
theorem normalize_normalize (cs : List Char) : normalize (normalize cs) = normalize cs :=
  normalize_eq_self_iff.2 (neat_normalize cs)

end TruthTable
