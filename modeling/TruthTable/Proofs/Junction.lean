import TruthTable.Proofs.Composition
import TruthTable.Proofs.Layout
import TruthTable.Proofs.Stream

/-!
# Proofs/Junction — an `and` may be written or left out

Two neighbours are at a junction when the first ends a value and the second starts one.  An `and`
that is written there takes the place of the one that would be filled in, and is itself at no
junction, so it is of no account which of them are written.

* `Joining` — a stream with an `and` written at some of its junctions.
* `Joining.full` — with one at each of them, which is what `insertAnds` makes of the stream.
* `insertAnds_written_or_bare` — all joinings of a stream are completed to the same one.
-/

namespace TruthTable

/-! ## Writing connectives down -/

/-- The stream of the tokens, with an `and` **behind those that are marked**. -/
def writeAnds (pieces : List (Token × Bool)) : List Token :=
  pieces.flatMap fun p => if p.2 then [p.1, .plain (.conn .and)] else [p.1]

/-- **A stream with an `and` written at some of its junctions**: behind each of its tokens, whether
there is one. -/
structure Joining where
  pieces : List (Token × Bool)
  atJunction : pieces.IsChain fun p q => p.2 = true → p.1.junction q.1 = true
  last : ∀ p ∈ pieces.getLast?, p.2 = false

/-- The stream with none of them. -/
def Joining.bare (j : Joining) : List Token := j.pieces.map Prod.fst

/-- The stream **as it is written**. -/
def Joining.written (j : Joining) : List Token := writeAnds j.pieces

/-- A written `and` is completed as it stands: it neither starts a value nor ends one. -/
theorem insertAnds_cons_and (t : Token) (ts : List Token) :
    insertAnds (t :: .plain (.conn .and) :: ts) = t :: .plain (.conn .and) :: insertAnds ts := by
  have hjunction : t.junction (.plain (.conn .and)) = false := Bool.and_false _
  rw [insertAnds, if_neg (by simp [hjunction]), insertAnds_cons_of_endsValue _ rfl]

/-- The first token stays first. -/
theorem head?_writeAnds : ∀ pieces : List (Token × Bool),
    (writeAnds pieces).head? = (pieces.map Prod.fst).head?
  | [] | (_, true) :: _ | (_, false) :: _ => rfl

/-- **What is written at a junction** is not filled in, and nothing else is missing. -/
theorem insertAnds_writeAnds : ∀ {pieces : List (Token × Bool)},
    (pieces.IsChain fun p q => p.2 = true → p.1.junction q.1 = true) →
      (∀ p ∈ pieces.getLast?, p.2 = false) →
        insertAnds (writeAnds pieces) = insertAnds (pieces.map Prod.fst)
  | [], _, _ => rfl
  | [(t, written)], _, hlast => by
    obtain rfl : written = false := hlast _ rfl
    rfl
  | (t, written) :: (u, next) :: pieces, hchain, hlast => by
    obtain ⟨hjunction, hchain⟩ := List.isChain_cons_cons.1 hchain
    have ih := insertAnds_writeAnds hchain fun p hp => hlast p (by rwa [List.getLast?_cons_cons])
    have hbare : insertAnds (((t, written) :: (u, next) :: pieces).map Prod.fst) =
        t :: gap (some t) (some u) ++ insertAnds (((u, next) :: pieces).map Prod.fst) :=
      insertAnds_append [t] _
    rw [hbare, ← ih]
    -- the gap behind the first token is filled in, or holds the written `and` already
    cases written with
    | false =>
      have hgap := insertAnds_append [t] (writeAnds ((u, next) :: pieces))
      rw [head?_writeAnds, insertAnds_singleton] at hgap
      exact hgap
    | true =>
      have hgap : gap (some t) (some u) = [.plain (.conn .and)] := if_pos (hjunction rfl)
      rw [hgap]
      exact insertAnds_cons_and t _

/-- **The joinings of a stream** are completed to the same one. -/
theorem Joining.insertAnds_written (j : Joining) : insertAnds j.written = insertAnds j.bare :=
  insertAnds_writeAnds j.atJunction j.last

/-! ## Writing all of them -/

/-- The tokens, marked **where an `and` is filled in** behind them. -/
def marks : List Token → List (Token × Bool)
  | t :: u :: ts => (t, t.junction u) :: marks (u :: ts)
  | [t] => [(t, false)]
  | [] => []

theorem map_fst_marks : ∀ ts : List Token, (marks ts).map Prod.fst = ts
  | [] => rfl
  | [_] => rfl
  | t :: u :: ts => congrArg (t :: ·) (map_fst_marks (u :: ts))

/-- **Every junction is marked**, and nothing else. -/
theorem isChain_marks : ∀ ts : List Token,
    (marks ts).IsChain fun p q => p.2 = p.1.junction q.1
  | [] => .nil
  | [_] => .singleton _
  | [_, _] => .cons_cons rfl (.singleton _)
  | _ :: u :: v :: ts => .cons_cons rfl (isChain_marks (u :: v :: ts))

theorem getLast?_marks : ∀ ts : List Token, ∀ p ∈ (marks ts).getLast?, p.2 = false
  | [], _, h => nomatch h
  | [_], _, h => Option.some.inj h ▸ rfl
  | [_, _], _, h => Option.some.inj h ▸ rfl
  | _ :: u :: v :: ts, p, h => getLast?_marks (u :: v :: ts) p h

/-- **What is filled in** is an `and` behind every mark. -/
theorem writeAnds_marks : ∀ ts : List Token, writeAnds (marks ts) = insertAnds ts
  | [] => insertAnds_nil.symm
  | [t] => (insertAnds_singleton t).symm
  | t :: u :: ts => by
    have ih := writeAnds_marks (u :: ts)
    rw [insertAnds, ← ih]
    cases hjunction : t.junction u <;> simp [marks, writeAnds, hjunction]

/-- The joining of the stream with an `and` **at each of its junctions**. -/
def Joining.full (ts : List Token) : Joining where
  pieces := marks ts
  atJunction := (isChain_marks ts).imp fun _ _ h hwritten => h.symm.trans hwritten
  last := getLast?_marks ts

/-! ## Streams and texts -/

/-- **An `and` may be written or left out** at any junction.  Whichever are written, the stream is
completed to the same one; that has no junction left, is completed already, and is the stream with
an `and` at each of its junctions and at no other place.  So two texts that are read as one stream,
but for what is written at its junctions, compile alike or are refused alike. -/
theorem insertAnds_written_or_bare (ts : List Token) :
    (∀ j : Joining, j.bare = ts → insertAnds j.written = insertAnds ts) ∧
    ((insertAnds ts).IsChain fun t u => t.junction u = false) ∧
    insertAnds (insertAnds ts) = insertAnds ts ∧
    (∃ j : Joining, j.bare = ts ∧ j.written = insertAnds ts ∧
      j.pieces.IsChain fun p q => p.2 = p.1.junction q.1) ∧
    ∀ (j k : Joining) (text text' : String), j.bare = ts → k.bare = ts →
      scan (normalize text.toList) = .ok j.written →
        scan (normalize text'.toList) = .ok k.written →
          Formula.compile text' = (fun f => { f with text := text' }) <$> Formula.compile text := by
  have hwritten (j : Joining) (hj : j.bare = ts) : insertAnds j.written = insertAnds ts := by
    rw [j.insertAnds_written, hj]
  refine ⟨hwritten, isChain_insertAnds ts, insertAnds_eq_self (isChain_insertAnds ts),
    ⟨.full ts, map_fst_marks ts, writeAnds_marks ts, isChain_marks ts⟩, ?_⟩
  intro j k text text' hj hk htext htext'
  refine Formula.compile_of_tokenize ?_
  rw [tokenize, tokenize, htext, htext']
  exact congrArg Except.ok ((hwritten k hk).trans (hwritten j hj).symm)

/-- The `and` may be written between a name and a negation, and left out in front of a
parenthesis, or the other way round. -/
theorem insertAnds_written_or_bare_texts :
    let bare : List Token :=
      [.var "A", .op .not true, .const true, .mark .lparen, .var "B", .mark .rparen]
    (∃ j : Joining, j.bare = bare ∧ scan (normalize "A*!1(B)".toList) = .ok j.written) ∧
      (∃ k : Joining, k.bare = bare ∧ scan (normalize "A!1.(B)".toList) = .ok k.written) ∧
      Formula.compile "A!1.(B)" =
        (fun f => { f with text := "A!1.(B)" }) <$> Formula.compile "A*!1(B)" := by
  intro bare
  let j : Joining := {
    pieces := bare.zip [true, false, false, false, false, false]
    atJunction := by decide
    last := by decide }
  let k : Joining := {
    pieces := bare.zip [false, false, true, false, false, false]
    atJunction := by decide
    last := by decide }
  have hj : scan (normalize "A*!1(B)".toList) = .ok j.written := by decide +kernel
  have hk : scan (normalize "A!1.(B)".toList) = .ok k.written := by decide +kernel
  obtain ⟨-, -, -, -, hcompile⟩ := insertAnds_written_or_bare bare
  exact ⟨⟨j, rfl, hj⟩, ⟨k, rfl, hk⟩, hcompile j k _ _ rfl rfl hj hk⟩

end TruthTable
