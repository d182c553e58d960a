import TruthTable.Proofs.Grammar

/-!
# Proofs/Grammar/Alternation — the grammar, one token at a time

Whether a stream is derivable can be seen from left to right: a value starts exactly where none is
complete, and the parentheses balance.  Precedence decides which tree a stream spells, never whether
it spells one.

* `WellFormed` — what can be seen from left to right.
* `derivable_iff_wellFormed` — a stream is derivable exactly when it is well-formed.
-/

namespace TruthTable

/-! ## What can be seen from left to right -/

namespace Token

/-- The token **completes a value**.  An apostrophe does, although no connective is left unwritten
behind it. -/
def closes (t : Token) : Bool := t.endsValue || t == .mark .prime

/-- A token **as a text is read**: negation in front of its operand, connectives between theirs. -/
def lexical : Token → Bool
  | .op .not inFront => inFront
  | .op (.conn _) inFront => !inFront
  | _ => true

end Token

/-- **A value starts exactly where none is complete**, and the end completes one; `closed` is set
right behind a value. -/
def Alternates : (closed : Bool) → List Token → Prop
  | closed, [] => closed = true
  | closed, t :: ts => t.startsValue = !closed ∧ Alternates t.closes ts

/-- **The parentheses balance**, where `depth` of them are open already. -/
def Balanced : (depth : Nat) → List Token → Prop
  | depth, [] => depth = 0
  | depth, .mark .lparen :: ts => Balanced (depth + 1) ts
  | 0, .mark .rparen :: _ => False
  | depth + 1, .mark .rparen :: ts => Balanced depth ts
  | depth, _ :: ts => Balanced depth ts

instance decidableAlternates : ∀ closed ts, Decidable (Alternates closed ts)
  | closed, [] => inferInstanceAs (Decidable (closed = true))
  | closed, t :: ts =>
    have := decidableAlternates t.closes ts
    inferInstanceAs (Decidable (t.startsValue = !closed ∧ Alternates t.closes ts))

/-- **Well-formed streams**. -/
structure WellFormed (ts : List Token) : Prop where
  lexical : ∀ t ∈ ts, t.lexical = true
  alternates : Alternates false ts
  balanced : Balanced 0 ts

/-! ## Derivable streams are well-formed -/

/-- A derivable stream takes the place of one value. -/
theorem Derives.alternates {L : Level} {ts : List Token} {e : Expr} (h : Derives L ts e) :
    ∀ rest, Alternates true rest → Alternates false (ts ++ rest) := by
  induction h with
  | join _ _ ihl ihr =>
    intro rest hrest
    rw [List.append_assoc, List.cons_append]
    exact ihl _ ⟨rfl, ihr rest hrest⟩
  | under _ ih | post _ ih | prim _ ih => exact ih
  | not _ ih => exact fun rest hrest => ⟨rfl, ih rest hrest⟩
  | prime _ ih =>
    intro rest hrest
    rw [List.append_assoc]
    exact ih _ ⟨rfl, hrest⟩
  | var _ | const _ => exact fun rest hrest => ⟨rfl, hrest⟩
  | parens _ ih =>
    intro rest hrest
    have : Alternates false (_ ++ .mark .rparen :: rest) := ih _ ⟨rfl, hrest⟩
    rw [List.cons_append, List.append_assoc]
    exact ⟨rfl, this⟩

/-- A derivable stream leaves as many parentheses open as it finds. -/
theorem Derives.balanced {L : Level} {ts : List Token} {e : Expr} (h : Derives L ts e) :
    ∀ depth rest, Balanced depth rest → Balanced depth (ts ++ rest) := by
  induction h with
  | join _ _ ihl ihr =>
    intro depth rest hrest
    rw [List.append_assoc, List.cons_append]
    exact ihl depth _ (ihr depth rest hrest)
  | under _ ih | post _ ih | prim _ ih => exact ih
  | not _ ih => exact fun depth rest hrest => ih depth rest hrest
  | prime _ ih =>
    intro depth rest hrest
    rw [List.append_assoc]
    exact ih depth _ hrest
  | var _ | const _ => exact fun depth rest hrest => hrest
  | parens _ ih =>
    intro depth rest hrest
    have hclose : Balanced (depth + 1) (.mark .rparen :: rest) := hrest
    have := ih (depth + 1) _ hclose
    rwa [← List.singleton_append, ← List.append_assoc] at this

theorem Derives.lexical {L : Level} {ts : List Token} {e : Expr} (h : Derives L ts e) :
    ∀ t ∈ ts, t.lexical = true := by
  induction h with
  | join _ _ ihl ihr =>
    intro t ht
    rcases List.mem_append.1 ht with ht | ht
    · exact ihl t ht
    · rcases List.mem_cons.1 ht with rfl | ht
      · rfl
      · exact ihr t ht
  | under _ ih | post _ ih | prim _ ih => exact ih
  | not _ ih => exact List.forall_mem_cons.2 ⟨rfl, ih⟩
  | prime _ ih =>
    exact List.forall_mem_append.2 ⟨ih, fun t ht => List.mem_singleton.1 ht ▸ rfl⟩
  | var _ | const _ => exact fun t ht => List.mem_singleton.1 ht ▸ rfl
  | parens _ ih =>
    exact List.forall_mem_cons.2
      ⟨rfl, List.forall_mem_append.2 ⟨ih, fun t ht => List.mem_singleton.1 ht ▸ rfl⟩⟩

/-! ## Well-formed streams are derivable

The stream is cut at its open parentheses.  What was read since the last of them either lacks one
operand or is complete, and so does what stands in front of each. -/

/-- **The stream lacks one operand** at its end. -/
def LacksOperand (ts : List Token) : Prop :=
  ∀ us, Derivable .un us → Derivable (.conn .or) (ts ++ us)

theorem LacksOperand.nil : LacksOperand [] := fun _ ⟨_, hu⟩ => ⟨_, hu.conn_of_un .or⟩

theorem LacksOperand.not {ts : List Token} (h : LacksOperand ts) :
    LacksOperand (ts ++ [.op .not true]) := fun us hu => by
  rw [List.append_assoc]
  exact h _ hu.not

theorem LacksOperand.conn {ts : List Token} (h : Derivable (.conn .or) ts) (c : Connective) :
    LacksOperand (ts ++ [.plain (.conn c)]) := fun us hu => by
  rw [List.append_assoc]
  exact h.snoc hu c

/-- What was read **since the last open parenthesis**, up to a place behind a value or not. -/
inductive Progress : (closed : Bool) → List Token → Prop
  | lacking {ts} (h : LacksOperand ts) : Progress false ts
  | complete {ts us} (h : LacksOperand ts) (hu : Derivable .post us) : Progress true (ts ++ us)

namespace Progress

variable {ts : List Token}

theorem lacksOperand (h : Progress false ts) : LacksOperand ts := by
  cases h with
  | lacking h => exact h

theorem derivable (h : Progress true ts) : Derivable (.conn .or) ts := by
  cases h with
  | complete h hu => exact h _ hu.post

theorem prime (h : Progress true ts) : Progress true (ts ++ [.mark .prime]) := by
  cases h with
  | complete h hu =>
    rw [List.append_assoc]
    exact .complete h hu.prime

/-- **One token more**, parentheses apart. -/
theorem step {closed : Bool} {t : Token} (h : Progress closed ts) (ht : t.lexical = true)
    (hstart : t.startsValue = !closed) (hl : t ≠ .mark .lparen) (hr : t ≠ .mark .rparen) :
    Progress t.closes (ts ++ [t]) := by
  match closed, t with
  | false, .var n => exact .complete h.lacksOperand (.var n)
  | false, .const b => exact .complete h.lacksOperand (.const b)
  | false, .op .not true => exact .lacking h.lacksOperand.not
  | true, .mark .prime => exact h.prime
  | true, .op (.conn c) false => exact .lacking (.conn h.derivable c)
  | true, .op .not false | _, .op (.conn _) true => nomatch ht
  | true, .var _ | true, .const _ | true, .op .not true | true, .mark .lparen => nomatch hstart
  | false, .op .not false | false, .op (.conn _) false | false, .mark .prime => nomatch hstart
  | _, .mark .rparen => exact absurd rfl hr
  | false, .mark .lparen => exact absurd rfl hl

end Progress

/-- Streams with an open parenthesis behind each, the innermost first, and what follows them. -/
def enclose : List (List Token) → List Token → List Token
  | [], ts => ts
  | c :: cs, ts => enclose cs (c ++ .mark .lparen :: ts)

/-- **What is well-formed from some place on makes the whole stream derivable**, if what was read
lacks an operand in front of each open parenthesis. -/
theorem derivable_enclose : ∀ (ts : List Token) {closed : Bool} (cs : List (List Token))
    (read : List Token), (∀ t ∈ ts, t.lexical = true) → Alternates closed ts →
      Balanced cs.length ts → (∀ c ∈ cs, LacksOperand c) → Progress closed read →
      Derivable (.conn .or) (enclose cs (read ++ ts))
  | [], _, cs, read, _, halt, hbal, _, hread => by
    obtain rfl : cs = [] := List.length_eq_zero_iff.1 hbal
    obtain rfl := halt
    rw [List.append_nil]
    exact hread.derivable
  | t :: ts, closed, cs, read, hlex, ⟨hstart, halt⟩, hbal, hcs, hread => by
    obtain ⟨ht, hlex'⟩ := List.forall_mem_cons.1 hlex
    by_cases hl : t = .mark .lparen
    · subst hl
      cases closed with
      | true => nomatch hstart
      | false =>
        exact derivable_enclose ts (read :: cs) [] hlex' halt hbal
          (List.forall_mem_cons.2 ⟨hread.lacksOperand, hcs⟩) (.lacking .nil)
    by_cases hr : t = .mark .rparen
    · subst hr
      match closed, cs, hstart, hbal, hcs, hread with
      | true, c :: cs, _, hbal, hcs, hread =>
        obtain ⟨hc, hcs'⟩ := List.forall_mem_cons.1 hcs
        have := derivable_enclose ts cs _ hlex' halt hbal hcs'
          (.complete hc (.parens hread.derivable))
        simpa [enclose] using this
    · have hbal' : Balanced cs.length ts := by
        unfold Balanced at hbal
        split at hbal <;> simp_all
      have := derivable_enclose ts cs _ hlex' halt hbal' hcs (hread.step ht hstart hl hr)
      rwa [List.append_assoc] at this

/-- **A stream is derivable exactly when it is well-formed.** -/
theorem derivable_iff_wellFormed {ts : List Token} : Derivable (.conn .or) ts ↔ WellFormed ts := by
  constructor
  · rintro ⟨e, h⟩
    refine ⟨h.lexical, ?_, ?_⟩
    · simpa using h.alternates [] rfl
    · simpa using h.balanced 0 [] rfl
  · intro h
    exact derivable_enclose ts [] [] h.lexical h.alternates h.balanced
      (by simp) (.lacking .nil)

end TruthTable
