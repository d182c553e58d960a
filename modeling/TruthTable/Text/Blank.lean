/-!
# Text/Blank — white space, and text without needless white space

White space is Unicode's: the ASCII blanks, the information separators `U+001C`–`U+001F`, and the
spaces and line separators of the general planes.

* `isBlank` — the class.
* `trim` — text without the blanks at its two ends.
* `squeeze` — text in which every run of blanks is one space.
-/

namespace TruthTable.Text

/-- **A white-space character.** -/
def isBlank (c : Char) : Bool :=
  let n := c.toNat
  (9 ≤ n && n ≤ 13) || (28 ≤ n && n ≤ 32) || n == 0x85 || n == 0xA0 || n == 0x1680 ||
    (0x2000 ≤ n && n ≤ 0x200A) || n == 0x2028 || n == 0x2029 || n == 0x202F || n == 0x205F ||
    n == 0x3000

@[simp] theorem isBlank_space : isBlank ' ' = true := by decide

/-- `trim p cs` drops the characters of the class `p` from both ends. -/
def trim (p : Char → Bool) (cs : List Char) : List Char :=
  ((cs.dropWhile p).reverse.dropWhile p).reverse

@[simp] theorem trim_nil (p : Char → Bool) : trim p [] = [] := rfl

/-- **Every run of blanks becomes one space.** -/
def squeeze : List Char → List Char
  | [] => []
  | c :: cs =>
    if isBlank c then
      match squeeze cs with
      | ' ' :: rest => ' ' :: rest
      | rest => ' ' :: rest
    else c :: squeeze cs

@[simp] theorem squeeze_nil : squeeze [] = [] := rfl

theorem squeeze_cons_of_not_isBlank {c : Char} (cs : List Char) (h : isBlank c = false) :
    squeeze (c :: cs) = c :: squeeze cs := by
  simp [squeeze, h]

/-- The only blank left by `squeeze` is the space. -/
theorem eq_space_of_mem_squeeze {c : Char} : ∀ {cs : List Char}, c ∈ squeeze cs →
    isBlank c = true → c = ' '
  | [], h, _ => by simp at h
  | d :: ds, h, hc => by
    unfold squeeze at h
    split at h
    · split at h
      · rename_i rest hrest
        exact eq_space_of_mem_squeeze (hrest ▸ h : c ∈ squeeze ds) hc
      · rcases List.mem_cons.1 h with rfl | h
        · rfl
        · exact eq_space_of_mem_squeeze h hc
    · rename_i hd
      rcases List.mem_cons.1 h with rfl | h
      · exact absurd hc hd
      · exact eq_space_of_mem_squeeze h hc

end TruthTable.Text
