import TruthTable.Proofs.Outcome
import TruthTable.Text.Utf8
import Mathlib.Data.List.Forall2

/-!
# Proofs/Utf8 — what is decoded is what was encoded

A first byte settles how many bytes follow it and into which ranges they fall.  These ranges let
through exactly the bytes of code points that are characters, so decoding undoes the encoding of a
text and refuses all that is no such encoding.

* `Encoding` — the bytes of a code point.
* `Encoding.exists_tails`, `encoding_of_tails` — the ranges let through what is an encoding.
* `decode_eq_ok_iff`, `readText_eq_ok_iff` — decoding gives the characters whose bytes these are.
-/

namespace TruthTable.Text.Utf8

/-! ## Bytes in their ranges -/

/-- **Bytes that fall into the ranges**, one into each. -/
def Fills : List UInt8 → List (Nat × Nat) → Prop :=
  List.Forall₂ fun b range => range.1 ≤ b.toNat ∧ b.toNat ≤ range.2

variable {b : UInt8} {own bytes : List UInt8} {ranges : List (Nat × Nat)} {c : Char}

/-- **All ranges are matched** where the bytes begin with bytes that fill them. -/
theorem matching_eq_length_iff : ∀ {ranges : List (Nat × Nat)} {bytes : List UInt8},
    matching ranges bytes = ranges.length ↔ Fills (bytes.take ranges.length) ranges
  | [], _ => iff_of_true rfl .nil
  | _ :: _, [] => iff_of_false (Nat.succ_ne_zero _ ∘ Eq.symm) fun h => nomatch h
  | (low, high) :: ranges, b :: bytes => by
    rw [matching, List.length_cons, List.take_succ_cons, Fills, List.forall₂_cons]
    split
    · rename_i hb
      rw [Nat.add_right_cancel_iff, matching_eq_length_iff]
      exact (and_iff_right hb).symm
    · rename_i hb
      exact iff_of_false (Nat.succ_ne_zero _ ∘ Eq.symm) fun h => hb h.1

theorem fills_nil_iff : Fills own [] ↔ own = [] := List.forall₂_nil_right_iff

theorem fills_cons_iff {range : Nat × Nat} : Fills own (range :: ranges) ↔
    ∃ b rest, (range.1 ≤ b.toNat ∧ b.toNat ≤ range.2) ∧ Fills rest ranges ∧ own = b :: rest :=
  List.forall₂_cons_right_iff

/-! ## What a first byte wants -/

variable {first : Nat}

theorem tails?_one (h : first < 0x80) : tails? first = some [] := if_pos h

theorem tails?_two (h : 0xC2 ≤ first ∧ first < 0xE0) : tails? first = some [(0x80, 0xBF)] := by
  rw [tails?, if_neg (by omega), if_neg (by omega), if_pos h.2]

theorem tails?_three (h : 0xE0 ≤ first ∧ first < 0xF0) :
    tails? first = some [(if first = 0xE0 then 0xA0 else 0x80, if first = 0xED then 0x9F else 0xBF),
      (0x80, 0xBF)] := by
  by_cases hlow : first = 0xE0
  · rw [hlow]
    rfl
  by_cases hhigh : first = 0xED
  · rw [hhigh]
    rfl
  rw [if_neg hlow, if_neg hhigh, tails?, if_neg (by omega), if_neg (by omega), if_neg (by omega),
    if_neg hlow, if_neg hhigh, if_pos h.2]

theorem tails?_four (h : 0xF0 ≤ first ∧ first ≤ 0xF4) :
    tails? first = some [(if first = 0xF0 then 0x90 else 0x80, if first = 0xF4 then 0x8F else 0xBF),
      (0x80, 0xBF), (0x80, 0xBF)] := by
  by_cases hlow : first = 0xF0
  · rw [hlow]
    rfl
  by_cases hhigh : first = 0xF4
  · rw [hhigh]
    rfl
  rw [if_neg hlow, if_neg hhigh, tails?, if_neg (by omega), if_neg (by omega), if_neg (by omega),
    if_neg (by omega), if_neg (by omega), if_neg (by omega), if_neg hlow, if_pos (by omega)]

theorem tails?_none (h : 0x80 ≤ first ∧ first < 0xC2 ∨ 0xF4 < first) : tails? first = none := by
  rcases h with h | h
  · rw [tails?, if_neg (by omega), if_pos h.2]
  · rw [tails?, if_neg (by omega), if_neg (by omega), if_neg (by omega), if_neg (by omega),
      if_neg (by omega), if_neg (by omega), if_neg (by omega), if_neg (by omega), if_neg (by omega)]

/-! ## The bytes of a code point -/

/-- **The bytes of a code point**: the first one, and those that follow it. -/
inductive Encoding (b : UInt8) : List UInt8 → Nat → Prop
  | one {n} (hn : n < 0x80) (hb : b.toNat = n) : Encoding b [] n
  | two {n b1} (hn : 0x80 ≤ n ∧ n < 0x800) (hb : b.toNat = 0xC0 + n / 0x40)
    (h1 : b1.toNat = 0x80 + n % 0x40) : Encoding b [b1] n
  | three {n b1 b2} (hn : 0x800 ≤ n ∧ n < 0xD800 ∨ 0xE000 ≤ n ∧ n < 0x10000)
    (hb : b.toNat = 0xE0 + n / 0x1000) (h1 : b1.toNat = 0x80 + n / 0x40 % 0x40)
    (h2 : b2.toNat = 0x80 + n % 0x40) : Encoding b [b1, b2] n
  | four {n b1 b2 b3} (hn : 0x10000 ≤ n ∧ n < 0x110000) (hb : b.toNat = 0xF0 + n / 0x40000)
    (h1 : b1.toNat = 0x80 + n / 0x1000 % 0x40) (h2 : b2.toNat = 0x80 + n / 0x40 % 0x40)
    (h3 : b3.toNat = 0x80 + n % 0x40) : Encoding b [b1, b2, b3] n

theorem Encoding.isValidChar {n : Nat} (h : Encoding b own n) : n.isValidChar := by
  cases h <;> simp only [Nat.isValidChar] <;> omega

theorem codePoint_two (b1 : UInt8) :
    codePoint first [b1] = first % 0x20 * 0x40 + b1.toNat % 0x40 := rfl

theorem codePoint_three (b1 b2 : UInt8) : codePoint first [b1, b2] =
    (first % 0x10 * 0x40 + b1.toNat % 0x40) * 0x40 + b2.toNat % 0x40 := rfl

theorem codePoint_four (b1 b2 b3 : UInt8) : codePoint first [b1, b2, b3] =
    ((first % 0x08 * 0x40 + b1.toNat % 0x40) * 0x40 + b2.toNat % 0x40) * 0x40 +
      b3.toNat % 0x40 := rfl

/-- The ranges of the bytes that follow let all encodings through. -/
theorem Encoding.exists_tails {n : Nat} (h : Encoding b own n) :
    ∃ ranges, tails? b.toNat = some ranges ∧ Fills own ranges ∧ codePoint b.toNat own = n := by
  cases h with
  | one hn hb => exact ⟨_, tails?_one (hb ▸ hn), .nil, hb⟩
  | two hn hb h1 =>
    refine ⟨_, tails?_two (by omega), .cons (by omega) .nil, ?_⟩
    rw [codePoint_two]
    omega
  | three hn hb h1 h2 =>
    refine ⟨_, tails?_three (by omega), .cons ⟨?_, ?_⟩ (.cons (by omega) .nil), ?_⟩
    · dsimp only
      split <;> omega
    · dsimp only
      split <;> omega
    · rw [codePoint_three]
      omega
  | four hn hb h1 h2 h3 =>
    refine ⟨_, tails?_four (by omega), .cons ⟨?_, ?_⟩ (.cons (by omega) (.cons (by omega) .nil)),
      ?_⟩
    · dsimp only
      split <;> omega
    · dsimp only
      split <;> omega
    · rw [codePoint_four]
      omega

/-- They let nothing else through. -/
theorem encoding_of_tails (hb : tails? b.toNat = some ranges) (h : Fills own ranges) :
    Encoding b own (codePoint b.toNat own) := by
  have hclass : b.toNat < 0x80 ∨ (0xC2 ≤ b.toNat ∧ b.toNat < 0xE0) ∨
      (0xE0 ≤ b.toNat ∧ b.toNat < 0xF0) ∨ (0xF0 ≤ b.toNat ∧ b.toNat ≤ 0xF4) ∨
      0x80 ≤ b.toNat ∧ b.toNat < 0xC2 ∨ 0xF4 < b.toNat := by omega
  rcases hclass with hone | htwo | hthree | hfour | hnone
  · obtain rfl := Option.some.inj ((tails?_one hone).symm.trans hb)
    obtain rfl := fills_nil_iff.1 h
    exact .one hone rfl
  · obtain rfl := Option.some.inj ((tails?_two htwo).symm.trans hb)
    obtain ⟨b1, _, h1, hnil, rfl⟩ := fills_cons_iff.1 h
    obtain rfl := fills_nil_iff.1 hnil
    rw [codePoint_two]
    exact .two (by omega) (by omega) (by omega)
  · obtain rfl := Option.some.inj ((tails?_three hthree).symm.trans hb)
    obtain ⟨b1, _, ⟨hlow, hhigh⟩, hrest, rfl⟩ := fills_cons_iff.1 h
    obtain ⟨b2, _, h2, hnil, rfl⟩ := fills_cons_iff.1 hrest
    obtain rfl := fills_nil_iff.1 hnil
    dsimp only at hlow hhigh h2
    have hsecond : 0x80 ≤ b1.toNat ∧ b1.toNat ≤ 0xBF ∧ (b.toNat = 0xE0 → 0xA0 ≤ b1.toNat) ∧
        (b.toNat = 0xED → b1.toNat ≤ 0x9F) := by
      split at hlow <;> split at hhigh <;> omega
    rw [codePoint_three]
    exact .three (by omega) (by omega) (by omega) (by omega)
  · obtain rfl := Option.some.inj ((tails?_four hfour).symm.trans hb)
    obtain ⟨b1, _, ⟨hlow, hhigh⟩, hrest, rfl⟩ := fills_cons_iff.1 h
    obtain ⟨b2, _, h2, hrest', rfl⟩ := fills_cons_iff.1 hrest
    obtain ⟨b3, _, h3, hnil, rfl⟩ := fills_cons_iff.1 hrest'
    obtain rfl := fills_nil_iff.1 hnil
    dsimp only at hlow hhigh h2 h3
    have hsecond : 0x80 ≤ b1.toNat ∧ b1.toNat ≤ 0xBF ∧ (b.toNat = 0xF0 → 0x90 ≤ b1.toNat) ∧
        (b.toNat = 0xF4 → b1.toNat ≤ 0x8F) := by
      split at hlow <;> split at hhigh <;> omega
    rw [codePoint_four]
    exact .four (by omega) (by omega) (by omega) (by omega) (by omega)
  · nomatch (tails?_none hnone).symm.trans hb

theorem ofNat_eq_of_toNat_eq {n : Nat} (h : b.toNat = n) : UInt8.ofNat n = b := by
  rw [← h, UInt8.ofNat_toNat]

/-- A character is written in the bytes of its code point. -/
theorem Encoding.utf8EncodeChar_eq {n : Nat} (h : Encoding b own n) (hc : c.val.toNat = n) :
    String.utf8EncodeChar c = b :: own := by
  simp only [String.utf8EncodeChar, hc]
  cases h with
  | one hn hb => rw [if_pos (by omega), ofNat_eq_of_toNat_eq hb]
  | two hn hb h1 =>
    rw [if_neg (by omega), if_pos (by omega)]
    simp only [List.cons.injEq, and_true]
    exact ⟨ofNat_eq_of_toNat_eq (by omega), ofNat_eq_of_toNat_eq (by omega)⟩
  | three hn hb h1 h2 =>
    rw [if_neg (by omega), if_neg (by omega), if_pos (by omega)]
    simp only [List.cons.injEq, and_true]
    exact ⟨ofNat_eq_of_toNat_eq (by omega), ofNat_eq_of_toNat_eq (by omega),
      ofNat_eq_of_toNat_eq (by omega)⟩
  | four hn hb h1 h2 h3 =>
    rw [if_neg (by omega), if_neg (by omega), if_neg (by omega)]
    simp only [List.cons.injEq, and_true]
    exact ⟨ofNat_eq_of_toNat_eq (by omega), ofNat_eq_of_toNat_eq (by omega),
      ofNat_eq_of_toNat_eq (by omega), ofNat_eq_of_toNat_eq (by omega)⟩

theorem exists_encoding {n : Nat} (h : n.isValidChar) : ∃ b own, Encoding b own n := by
  have hto {k : Nat} (hk : k < 256) : (UInt8.ofNat k).toNat = k := UInt8.toNat_ofNat_of_lt' hk
  have hclass : n < 0x80 ∨ (0x80 ≤ n ∧ n < 0x800) ∨
      (0x800 ≤ n ∧ n < 0xD800 ∨ 0xE000 ≤ n ∧ n < 0x10000) ∨ 0x10000 ≤ n ∧ n < 0x110000 := by
    simp only [Nat.isValidChar] at h
    omega
  rcases hclass with hn | hn | hn | hn
  · exact ⟨_, _, .one hn (hto (by omega))⟩
  · exact ⟨_, _, .two hn (hto (by omega)) (hto (by omega))⟩
  · exact ⟨_, _, .three hn (hto (by omega)) (hto (by omega)) (hto (by omega))⟩
  · exact ⟨_, _, .four hn (hto (by omega)) (hto (by omega)) (hto (by omega)) (hto (by omega))⟩

/-! ## Decoding -/

variable {read cs : List Char} {pos : Nat}

theorem decodeFrom_skip (read : List Char) : ∀ (pos : Nat) (own bytes : List UInt8),
    decodeFrom read pos own.length (own ++ bytes) = decodeFrom read (pos + own.length) 0 bytes
  | _, [], _ => rfl
  | pos, b :: own, bytes => by
    rw [List.length_cons, List.cons_append, decodeFrom, decodeFrom_skip read (pos + 1) own bytes,
      Nat.add_assoc, Nat.add_comm 1]

/-- **The bytes of a character** are decoded to the character. -/
theorem decodeFrom_char (h : Encoding b own c.toNat) (bytes : List UInt8) :
    decodeFrom read pos 0 (b :: (own ++ bytes)) =
      decodeFrom (c :: read) (pos + 1 + own.length) 0 bytes := by
  obtain ⟨ranges, htails, hfills, hcode⟩ := h.exists_tails
  have hlength := hfills.length_eq
  have hmatching : matching ranges (own ++ bytes) = ranges.length := by
    rw [matching_eq_length_iff, ← hlength, List.take_left]
    exact hfills
  rw [decodeFrom, htails]
  dsimp only
  rw [if_pos hmatching, hmatching, ← hlength, List.take_left, hcode, Char.ofNat_toNat,
    decodeFrom_skip]

/-- **Where decoding goes on**, there are the bytes of a character. -/
theorem exists_of_decodeFrom (h : decodeFrom read pos 0 (b :: bytes) = .ok cs) :
    ∃ c own rest, bytes = own ++ rest ∧ Encoding b own c.toNat ∧
      decodeFrom (c :: read) (pos + 1 + own.length) 0 rest = .ok cs := by
  rw [decodeFrom] at h
  split at h
  · nomatch h
  · rename_i ranges htails
    dsimp only at h
    split at h
    · rename_i hmatching
      have hfills := matching_eq_length_iff.1 hmatching
      have hencoding := encoding_of_tails htails hfills
      have hlength := hfills.length_eq
      have hc : (Char.ofNat (codePoint b.toNat (bytes.take ranges.length))).toNat =
          codePoint b.toNat (bytes.take ranges.length) := by
        rw [Char.ofNat, dif_pos hencoding.isValidChar]
        rfl
      rw [← hc] at hencoding
      refine ⟨_, _, bytes.drop ranges.length, (List.take_append_drop _ _).symm, hencoding, ?_⟩
      rw [← decodeFrom_skip, List.take_append_drop, hlength, ← hmatching]
      exact h
    · split at h <;> nomatch h

/-- **What is decoded** is the characters whose bytes these are, behind those that were read. -/
theorem exists_of_decodeFrom_eq_ok : ∀ {bytes : List UInt8} {read : List Char} {pos : Nat},
    decodeFrom read pos 0 bytes = .ok cs →
      ∃ ds, bytes = ds.flatMap String.utf8EncodeChar ∧ cs = read.reverse ++ ds
  | [], read, _, h => ⟨[], rfl, (Except.ok.inj h).symm.trans (List.append_nil _).symm⟩
  | b :: bytes, read, pos, h => by
    obtain ⟨c, own, rest, hbytes, hencoding, h⟩ := exists_of_decodeFrom h
    obtain ⟨ds, hrest, rfl⟩ := exists_of_decodeFrom_eq_ok h
    refine ⟨c :: ds, ?_, ?_⟩
    · rw [List.flatMap_cons, hencoding.utf8EncodeChar_eq rfl, List.cons_append, hbytes, hrest]
    · rw [List.reverse_cons, List.append_assoc, List.singleton_append]
termination_by bytes => bytes.length
decreasing_by
  rw [hbytes, List.length_cons, List.length_append]
  omega

/-- The bytes of characters are decoded to the characters, behind those that were read. -/
theorem decodeFrom_flatMap : ∀ (ds read : List Char) (pos : Nat),
    decodeFrom read pos 0 (ds.flatMap String.utf8EncodeChar) = .ok (read.reverse ++ ds)
  | [], read, _ => congrArg Except.ok (List.append_nil _).symm
  | c :: ds, read, pos => by
    obtain ⟨b, own, hencoding⟩ := exists_encoding c.valid
    rw [List.flatMap_cons, hencoding.utf8EncodeChar_eq rfl, List.cons_append,
      decodeFrom_char hencoding, decodeFrom_flatMap ds, List.reverse_cons, List.append_assoc,
      List.singleton_append]

/-- **Decoding** gives the characters whose bytes these are, and refuses all other bytes. -/
theorem decode_eq_ok_iff : decode bytes = .ok cs ↔ bytes = cs.flatMap String.utf8EncodeChar := by
  constructor
  · intro h
    obtain ⟨ds, hbytes, hcs⟩ := exists_of_decodeFrom_eq_ok h
    rw [hcs]
    exact hbytes
  · rintro rfl
    exact decodeFrom_flatMap cs [] 0

theorem readText_eq_ok_iff {text : List Char} : readText bytes = .ok text ↔
    ∃ cs, bytes = cs.flatMap String.utf8EncodeChar ∧ unifyNewlines cs = text := by
  rw [readText, map_eq_ok_iff]
  exact exists_congr fun cs => and_congr_left' decode_eq_ok_iff

end TruthTable.Text.Utf8
