import Mathlib.Algebra.Group.Nat.Defs
import Mathlib.Logic.Function.Iterate
import TruthTable.Expr.Random

/-!
# Proofs/Growth — how large a random expression grows, and where growing breaks off

What comes of growing an expression can be told step by step: it is large enough, or it is negated,
or it is joined with a partner that has been grown before.  The count that is kept beside it is its
number of nodes.  A partner takes at most half of what is missing, and it overshoots by one node at
most, so the two together overshoot by one again.

Each step takes up draws, at most three for a node, and none is looked at that is not taken up: so
growing ends after finitely many draws of an endless row, and the others do not matter.

So far nothing hangs on the room for calls.  But a partner is grown by a call within the call, and
the size of it is found by going down it.  Growing comes to its end where there is room for all its
partners, and breaks off else.

* `Expr.Grows` — what growing comes to, and the partners on the way.
* `Expr.Grows.grow_eq` — growing comes to that or breaks off, as there is room for the partners.
* `Expr.Grows.size_bounds` — the number of nodes.
* `Expr.Grows.draws_le`, `Expr.Grows.congr` — the draws that it takes.
* `Expr.Grown`, `Expr.random_of_size` — random expressions of a size.
* `Expr.random_breaks_off` — a partner that is too tall.
-/

namespace TruthTable

/-- The draw that **joins by the connective**. -/
def Connective.draw : Connective → Nat
  | and => 1
  | or => 2
  | xor => 3

namespace Expr

/-! ## What growing comes to -/

/-- **A partner that is grown on the way**, inside of so many others. -/
structure Partner where
  inner : Nat
  tree : Expr

namespace Partner

/-- The partner inside of one more. -/
def deeper (p : Partner) : Partner := { p with inner := p.inner + 1 }

/-- **There is room for the partner** where so many calls may still stand within one another: for
growing it from its first leaf on, and for counting its nodes. -/
def Fits (room : Room) (calls : Nat) (p : Partner) : Prop :=
  p.inner + 1 + room.leafDraw ≤ calls ∧ p.inner + room.need .nodes p.tree ≤ calls

instance {room : Room} {calls : Nat} : DecidablePred (Fits room calls) :=
  fun _ => inferInstanceAs (Decidable (_ ∧ _))

variable {room : Room} {calls : Nat} {partner : Expr} {inner ps : List Partner}

theorem fits_deeper_iff {p : Partner} : p.deeper.Fits room (calls + 1) ↔ p.Fits room calls := by
  simp only [Fits, deeper]
  omega

theorem not_fits_zero (p : Partner) : ¬ p.Fits room 0 := fun h => by
  have hgrown := h.1
  omega

/-- **There is room for a join** where there is for its partner's leaf, for the partners within the
partner, for counting it, and for those that follow. -/
theorem forall_fits_join :
    (∀ p ∈ ⟨0, partner⟩ :: (inner.map deeper ++ ps), p.Fits room (calls + 1)) ↔
      room.leafDraw ≤ calls ∧ (∀ p ∈ inner, p.Fits room calls) ∧
        room.need .nodes partner ≤ calls + 1 ∧ ∀ p ∈ ps, p.Fits room (calls + 1) := by
  have hhead : Fits room (calls + 1) ⟨0, partner⟩ ↔
      room.leafDraw ≤ calls ∧ room.need .nodes partner ≤ calls + 1 := by
    simp only [Fits]
    omega
  simp only [List.forall_mem_cons, List.forall_mem_append, List.forall_mem_map, fits_deeper_iff,
    hhead, and_assoc]
  rw [and_left_comm (a := room.need .nodes partner ≤ calls + 1)]

end Partner

/-- **What growing comes to**, if it does not break off: from an expression of `nodes + 1` nodes and
the `k`-th draw on, the expression, the number of the next draw, and the partners on the way. -/
inductive Grows (names : List String) (draws : Draws) :
    (size nodes : Nat) → Expr → Nat → Expr → Nat → List Partner → Prop
  | done {size nodes e k} (h : size ≤ nodes + 1) : Grows names draws size nodes e k e k []
  | negate {size nodes e k r k' ps} (h : nodes + 1 < size) (hkind : pick draws k 4 = 0)
    (hrest : Grows names draws size (nodes + 1) (not e) (k + 1) r k' ps) :
    Grows names draws size nodes e k r k' ps
  | join {size nodes e k c leaf k₁ partner k₂ inner r k' ps} (h : nodes + 1 < size)
    (hkind : pick draws k 4 = Connective.draw c)
    (hleaf : randomLeaf names draws (k + 2) = .ok (leaf, k₁))
    (hpartner : Grows names draws (partnerSize draws (k + 1) size nodes) 0 leaf k₁ partner k₂ inner)
    (hrest : Grows names draws size (nodes + partner.size + 1) (joinAt draws k₂ c e partner)
      (k₂ + 1) r k' ps) :
    Grows names draws size nodes e k r k' (⟨0, partner⟩ :: (inner.map Partner.deeper ++ ps))

/-! ## Leaves, partners and sides -/

section Draws

variable {draws draws' : Draws} {names : List String} {k size nodes : Nat}

/-- A leaf is **one node, from two draws**, and its variable is one of the names. -/
theorem of_randomLeaf {leaf : Expr} {k₁ : Nat} (h : randomLeaf names draws k = .ok (leaf, k₁)) :
    leaf.size = 1 ∧ k₁ = k + 2 ∧ ∀ n ∈ leaf.occurrences, n ∈ names := by
  rw [randomLeaf] at h
  split at h
  · obtain ⟨rfl, rfl⟩ := Prod.mk.inj (Except.ok.inj h)
    exact ⟨rfl, rfl, List.forall_mem_nil _⟩
  · split at h
    · rename_i hn
      obtain ⟨rfl, rfl⟩ := Prod.mk.inj (Except.ok.inj h)
      exact ⟨rfl, rfl, List.forall_mem_singleton.2 (List.mem_of_getElem? hn)⟩
    · cases h

/-- **With a name at hand** there is a leaf. -/
theorem exists_randomLeaf (h : names ≠ []) (draws : Draws) (k : Nat) :
    ∃ leaf k₁, randomLeaf names draws k = .ok (leaf, k₁) := by
  rw [randomLeaf]
  split
  · exact ⟨_, _, rfl⟩
  · have hlt := pick_lt draws (k + 1) (List.length_pos_iff.2 h)
    rw [List.getElem?_eq_getElem hlt]
    exact ⟨_, _, rfl⟩

theorem mem_subterms_self (e : Expr) : e ∈ e.subterms := by
  cases e <;> exact List.mem_cons_self

theorem mem_subterms_not (e : Expr) : e ∈ (not e).subterms :=
  List.mem_cons_of_mem _ (mem_subterms_self e)

/-- A part of a part is a part. -/
theorem mem_subterms_trans {d e : Expr} : ∀ {r : Expr}, d ∈ e.subterms → e ∈ r.subterms →
    d ∈ r.subterms
  | var _, hd, he | const _, hd, he => by
    obtain rfl := List.mem_singleton.1 he
    exact hd
  | not r, hd, he => by
    rcases List.mem_cons.1 he with rfl | he
    · exact hd
    · exact List.mem_cons_of_mem _ (mem_subterms_trans hd he)
  | bin _ _ _, hd, he => by
    rcases List.mem_cons.1 he with rfl | he
    · exact hd
    · refine List.mem_cons_of_mem _ (List.mem_append.2 ?_)
      exact (List.mem_append.1 he).imp (mem_subterms_trans hd) (mem_subterms_trans hd)

/-- What is joined **is part of the whole**. -/
theorem mem_subterms_joinAt (c : Connective) (e partner : Expr) :
    e ∈ (joinAt draws k c e partner).subterms ∧
      partner ∈ (joinAt draws k c e partner).subterms := by
  have hl (l r : Expr) : l ∈ (bin c l r).subterms :=
    List.mem_cons_of_mem _ (List.mem_append_left _ (mem_subterms_self l))
  have hr (l r : Expr) : r ∈ (bin c l r).subterms :=
    List.mem_cons_of_mem _ (List.mem_append_right _ (mem_subterms_self r))
  rw [joinAt]
  split
  · exact ⟨hl _ _, hr _ _⟩
  · exact ⟨hr _ _, hl _ _⟩

theorem size_joinAt (draws : Draws) (k : Nat) (c : Connective) (e partner : Expr) :
    (joinAt draws k c e partner).size = e.size + partner.size + 1 := by
  rw [joinAt]
  split
  · rfl
  · rw [size, Nat.add_comm partner.size]

theorem mem_occurrences_joinAt (c : Connective) {e partner : Expr} {n : String} :
    n ∈ (joinAt draws k c e partner).occurrences ↔
      n ∈ e.occurrences ∨ n ∈ partner.occurrences := by
  rw [joinAt]
  split
  · exact List.mem_append
  · exact List.mem_append.trans Or.comm

/-- **A partner takes at most half** of what is missing, or one node. -/
theorem partnerSize_le (draws : Draws) (k size nodes : Nat) :
    partnerSize draws k size nodes ≤ max 1 ((size - (nodes + 1)) / 2) := by
  have hpos : 0 < max 1 ((size - (nodes + 1)) / 2) := by omega
  have hlt := pick_lt draws k hpos
  unfold partnerSize
  omega

theorem pick_congr (h : draws' k = draws k) (choices : Nat) :
    pick draws' k choices = pick draws k choices := by
  rw [pick, pick, h]

theorem randomLeaf_congr (h : draws' k = draws k) (h' : draws' (k + 1) = draws (k + 1)) :
    randomLeaf names draws' k = randomLeaf names draws k := by
  simp only [randomLeaf, pick_congr h, pick_congr h']

theorem partnerSize_congr (h : draws' k = draws k) :
    partnerSize draws' k size nodes = partnerSize draws k size nodes := by
  rw [partnerSize, partnerSize, pick_congr h]

theorem joinAt_congr (h : draws' k = draws k) : joinAt draws' k = joinAt draws k := by
  funext c e partner
  rw [joinAt, joinAt, pick_congr h]

end Draws

/-- **With a name at hand** growing comes to something. -/
theorem exists_grows {names : List String} (hnames : names ≠ []) (draws : Draws) :
    ∀ (size nodes : Nat) (e : Expr) (k : Nat),
      ∃ r k' ps, Grows names draws size nodes e k r k' ps := by
  intro size nodes e k
  by_cases h : nodes + 1 < size
  · have hjoin (c : Connective) (hkind : pick draws k 4 = c.draw) :
        ∃ r k' ps, Grows names draws size nodes e k r k' ps := by
      have hsmaller := partnerSize_lt draws (k + 1) h
      obtain ⟨leaf, k₁, hleaf⟩ := exists_randomLeaf hnames draws (k + 2)
      obtain ⟨partner, k₂, inner, hpartner⟩ :=
        exists_grows hnames draws (partnerSize draws (k + 1) size nodes) 0 leaf k₁
      obtain ⟨r, k', ps, hrest⟩ := exists_grows hnames draws size (nodes + partner.size + 1)
        (joinAt draws k₂ c e partner) (k₂ + 1)
      exact ⟨r, k', _, .join h hkind hleaf hpartner hrest⟩
    have hlt : pick draws k 4 < 4 := pick_lt draws k (by decide)
    match hkind : pick draws k 4 with
    | 0 =>
      obtain ⟨r, k', ps, hrest⟩ := exists_grows hnames draws size (nodes + 1) (not e) (k + 1)
      exact ⟨r, k', ps, .negate h hkind hrest⟩
    | 1 => exact hjoin .and hkind
    | 2 => exact hjoin .or hkind
    | 3 => exact hjoin .xor hkind
    | _ + 4 => omega
  · exact ⟨e, k, [], .done (Nat.not_lt.1 h)⟩
termination_by size nodes => (size, size - nodes)

/-! ## Along the growth -/

section Steps

variable {room : Room} {names : List String} {draws : Draws} {calls size nodes k k₁ : Nat}
  {e leaf partner : Expr} {c : Connective}

theorem randomFrom_eq_error (h : calls < room.leafDraw) :
    randomFrom room names draws calls size k = .error .noRoom := by
  rw [randomFrom, if_pos h]

theorem randomFrom_eq_grow (h : room.leafDraw ≤ calls)
    (hleaf : randomLeaf names draws k = .ok (leaf, k₁)) :
    randomFrom room names draws calls size k = grow room names draws calls size 0 leaf k₁ := by
  rw [randomFrom, if_neg (Nat.not_lt.2 h), hleaf]
  rfl

theorem grow_zero (h : nodes + 1 < size) (hkind : pick draws k 4 = Connective.draw c) :
    grow room names draws 0 size nodes e k = .error .noRoom := by
  rw [grow, dif_pos h, hkind]
  cases c <;> rfl

/-- **A partner is grown within the call**, and what stops it stops the growth. -/
theorem grow_succ_eq_error (h : nodes + 1 < size) (hkind : pick draws k 4 = Connective.draw c)
    (hpartner : randomFrom room names draws calls (partnerSize draws (k + 1) size nodes) (k + 2) =
      .error .noRoom) : grow room names draws (calls + 1) size nodes e k = .error .noRoom := by
  rw [grow, dif_pos h, hkind]
  cases c <;> simp only [Connective.draw, hpartner] <;> rfl

/-- **A partner is counted** before it is grown on. -/
theorem grow_succ (h : nodes + 1 < size) (hkind : pick draws k 4 = Connective.draw c)
    (hpartner : randomFrom room names draws calls (partnerSize draws (k + 1) size nodes) (k + 2) =
      .ok (partner, k₁)) : grow room names draws (calls + 1) size nodes e k =
        if calls + 1 < room.need .nodes partner then .error .noRoom
        else grow room names draws (calls + 1) size (nodes + partner.size + 1)
          (joinAt draws k₁ c e partner) (k₁ + 1) := by
  rw [grow, dif_pos h, hkind]
  cases c <;> simp only [Connective.draw, hpartner] <;> rfl

end Steps

namespace Grows

variable {room : Room} {names : List String} {draws draws' : Draws} {calls size nodes k k' : Nat}
  {e r : Expr} {ps : List Partner} {p : Partner}

/-- **It comes to that where there is room for all partners**, and breaks off else. -/
theorem grow_eq (h : Grows names draws size nodes e k r k' ps) : ∀ calls,
    (∀ p ∈ ps, p.Fits room calls) ∧
      grow room names draws calls size nodes e k = .ok (r, k') ∨
    (¬ ∀ p ∈ ps, p.Fits room calls) ∧
      grow room names draws calls size nodes e k = .error .noRoom := by
  induction h with
  | done h =>
    intro calls
    rw [grow, dif_neg (Nat.not_lt.2 h)]
    exact .inl ⟨List.forall_mem_nil _, rfl⟩
  | negate h hkind _ ih =>
    intro calls
    rw [grow, dif_pos h, hkind]
    exact ih calls
  | @join size nodes e k c leaf k₁ partner k₂ inner r k' ps h hkind hleaf _ _ ihpartner ih =>
    rintro (_ | calls)
    · rw [grow_zero h hkind]
      exact .inr ⟨fun hfits => Partner.not_fits_zero _ (hfits _ List.mem_cons_self), rfl⟩
    rw [Partner.forall_fits_join]
    by_cases hdraw : calls < room.leafDraw
    · rw [grow_succ_eq_error h hkind (randomFrom_eq_error hdraw)]
      exact .inr ⟨fun hfits => Nat.not_le.2 hdraw hfits.1, rfl⟩
    have hdraw := Nat.not_lt.1 hdraw
    have hstart : randomFrom room names draws calls (partnerSize draws (k + 1) size nodes) (k + 2) =
        grow room names draws calls (partnerSize draws (k + 1) size nodes) 0 leaf k₁ :=
      randomFrom_eq_grow hdraw hleaf
    obtain ⟨hinner, hpartner⟩ | ⟨hinner, hpartner⟩ := ihpartner calls
    · rw [grow_succ h hkind (hstart.trans hpartner), and_iff_right hdraw, and_iff_right hinner]
      by_cases hneed : calls + 1 < room.need .nodes partner
      · rw [if_pos hneed]
        exact .inr ⟨fun hfits => Nat.not_le.2 hneed hfits.1, rfl⟩
      · rw [if_neg hneed, and_iff_right (Nat.not_lt.1 hneed)]
        exact ih (calls + 1)
    · rw [grow_succ_eq_error h hkind (hstart.trans hpartner)]
      exact .inr ⟨fun hfits => hinner hfits.2.1, rfl⟩

theorem eq_of_le (h : Grows names draws size nodes e k r k' ps) (hsize : size ≤ nodes + 1) :
    r = e := by
  cases h with
  | done => rfl
  | negate h | join h => exact absurd hsize (Nat.not_le.2 h)

/-- **The expression ends up as large as asked, or one node larger**, if it is counted right and
not too large at the start. -/
theorem size_bounds (h : Grows names draws size nodes e k r k' ps) :
    e.size = nodes + 1 → nodes ≤ size → size ≤ r.size ∧ r.size ≤ size + 1 := by
  induction h with
  | done h => omega
  | negate h _ _ ih =>
    intro he _
    exact ih (by rw [Expr.size, he]) (by omega)
  | @join size nodes e k c leaf k₁ partner k₂ inner r k' ps h _ hleaf hpartner _ ihpartner ih =>
    intro he _
    obtain ⟨hone, -⟩ := of_randomLeaf hleaf
    have hhalf := partnerSize_le draws (k + 1) size nodes
    have hroom : nodes + partner.size + 1 ≤ size := by
      by_cases hsmall : partnerSize draws (k + 1) size nodes ≤ 1
      · have hsize : partner.size = 1 := by rw [hpartner.eq_of_le hsmall, hone]
        omega
      · have hsize := (ihpartner hone (Nat.zero_le _)).2
        omega
    exact ih (by rw [size_joinAt, he]; omega) hroom

/-- What is there at the start **stays a part** of the expression. -/
theorem mem_subterms (h : Grows names draws size nodes e k r k' ps) : e ∈ r.subterms := by
  induction h with
  | @done _ _ e _ _ => exact mem_subterms_self e
  | @negate _ _ e _ _ _ _ _ _ _ ih => exact mem_subterms_trans (mem_subterms_not e) ih
  | @join _ _ e _ c _ _ partner _ _ _ _ _ _ _ _ _ _ _ ih =>
    exact mem_subterms_trans (mem_subterms_joinAt c e partner).1 ih

/-- **A partner** is a part of the expression, about half as large as asked at most, and grown
within few others. -/
theorem of_mem (h : Grows names draws size nodes e k r k' ps) : ∀ p ∈ ps,
    p.tree ∈ r.subterms ∧ 2 ^ (p.inner + 1) ≤ size ∧ 2 * p.tree.size ≤ size + 1 := by
  induction h with
  | done => exact List.forall_mem_nil _
  | negate _ _ _ ih => exact ih
  | @join size nodes e k c leaf k₁ partner k₂ inner r k' ps h _ hleaf hpartner hrest ihpartner ih =>
    have hhalf := partnerSize_le draws (k + 1) size nodes
    have hwhole : partner ∈ r.subterms :=
      mem_subterms_trans (mem_subterms_joinAt c e partner).2 hrest.mem_subterms
    obtain ⟨hone, -⟩ := of_randomLeaf hleaf
    have htwo : 2 ≤ size := by omega
    have hsize : 2 * partner.size ≤ size + 1 := by
      by_cases hsmall : partnerSize draws (k + 1) size nodes ≤ 1
      · rw [hpartner.eq_of_le hsmall, hone]
        omega
      · have hbound := (hpartner.size_bounds hone (Nat.zero_le _)).2
        omega
    refine List.forall_mem_cons.2 ⟨⟨hwhole, htwo, hsize⟩, List.forall_mem_append.2 ⟨?_, ih⟩⟩
    refine List.forall_mem_map.2 fun p hp => ?_
    obtain ⟨hpart, hinner, hsize⟩ := ihpartner p hp
    have hpos : 2 ≤ 2 ^ (p.inner + 1) := Nat.le_self_pow (Nat.succ_ne_zero _) 2
    have hdeeper : 2 ^ (p.inner + 1) * 2 ≤ size := by omega
    have hsmaller : 2 * p.tree.size ≤ size + 1 := by omega
    exact ⟨mem_subterms_trans hpart hwhole, hdeeper, hsmaller⟩

/-- The variables are those of the start and **the names that there are**. -/
theorem occurrences_subset (h : Grows names draws size nodes e k r k' ps) :
    (∀ n ∈ e.occurrences, n ∈ names) → ∀ n ∈ r.occurrences, n ∈ names := by
  induction h with
  | done => exact id
  | negate _ _ _ ih => exact ih
  | @join size nodes e k c leaf k₁ partner k₂ inner r k' ps _ _ hleaf _ _ ihpartner ih =>
    intro he
    have hpartner := ihpartner (of_randomLeaf hleaf).2.2
    exact ih fun n hn => (mem_occurrences_joinAt c).1 hn |>.elim (he n) (hpartner n)

/-- **A node takes at most three draws.** -/
theorem draws_le (h : Grows names draws size nodes e k r k' ps) :
    k' + 3 * e.size ≤ k + 3 * r.size := by
  induction h with
  | done => exact Nat.le_refl _
  | negate _ _ _ ih =>
    rw [Expr.size] at ih
    omega
  | @join size nodes e k c leaf k₁ partner k₂ inner r k' ps _ _ hleaf _ _ ihpartner ih =>
    obtain ⟨hone, rfl, -⟩ := of_randomLeaf hleaf
    rw [size_joinAt] at ih
    omega

theorem le (h : Grows names draws size nodes e k r k' ps) : k ≤ k' := by
  induction h with
  | done => exact Nat.le_refl _
  | negate _ _ _ ih => omega
  | @join size nodes e k c leaf k₁ partner k₂ inner r k' ps _ _ hleaf _ _ ihpartner ih =>
    obtain ⟨-, rfl, -⟩ := of_randomLeaf hleaf
    omega

/-- **Only the draws that are taken up matter.** -/
theorem congr (h : Grows names draws size nodes e k r k' ps) :
    (∀ i < k', draws' i = draws i) → Grows names draws' size nodes e k r k' ps := by
  induction h with
  | done h => exact fun _ => .done h
  | @negate size nodes e k r k' ps h hkind hrest ih =>
    intro hdraws
    have hk : draws' k = draws k := hdraws k hrest.le
    exact .negate h ((pick_congr hk 4).trans hkind) (ih hdraws)
  | @join size nodes e k c leaf k₁ partner k₂ inner r k' ps h hkind hleaf hpartner hrest ihpartner
      ih =>
    intro hdraws
    obtain ⟨-, hnext, -⟩ := of_randomLeaf hleaf
    have hpast : k₁ ≤ k₂ := hpartner.le
    have hend : k₂ + 1 ≤ k' := hrest.le
    have hfrom (i : Nat) (hi : i ≤ k₂) : draws' i = draws i := hdraws i (by omega)
    have hkind' : pick draws' k 4 = c.draw := (pick_congr (hfrom k (by omega)) 4).trans hkind
    have hleaf' : randomLeaf names draws' (k + 2) = .ok (leaf, k₁) :=
      (randomLeaf_congr (hfrom (k + 2) (by omega)) (hfrom (k + 3) (by omega))).trans hleaf
    have hpartner' : Grows names draws' (partnerSize draws' (k + 1) size nodes) 0 leaf k₁
        partner k₂ inner := by
      rw [partnerSize_congr (hfrom (k + 1) (by omega))]
      exact ihpartner fun i hi => hfrom i (Nat.le_of_lt hi)
    have hrest' : Grows names draws' size (nodes + partner.size + 1)
        (joinAt draws' k₂ c e partner) (k₂ + 1) r k' ps := by
      rw [joinAt_congr (hfrom k₂ (Nat.le_refl _))]
      exact ih hdraws
    exact .join h hkind' hleaf' hpartner' hrest'

end Grows

/-! ## Random expressions -/

/-- **There is room for a growth**: for its first leaf, and for the partners on the way. -/
def Partner.AllFit (room : Room) (ps : List Partner) : Prop :=
  room.leafDraw ≤ room.calls ∧ ∀ p ∈ ps, p.Fits room room.calls

/-- **A random expression of a size**: what growing comes to, the draws that it takes, and the
partners on the way. -/
structure Grown (names : List String) (draws : Draws) (size : Int) (e : Expr) (used : Nat)
    (ps : List Partner) : Prop where
  grows : ∃ leaf k, randomLeaf names draws 0 = .ok (leaf, k) ∧
    Grows names draws size.toNat 0 leaf k e used ps
  mem_names : ∀ n ∈ e.occurrences, n ∈ names
  single : size ≤ 1 → e.subterms.length = 1
  length_eq : 1 < size →
    (e.subterms.length : Int) = size ∨ (e.subterms.length : Int) = size + 1
  used_lt : used < 3 * e.subterms.length
  /-- A partner is a part of the expression, about half as large as asked at most, and grown within
  few others. -/
  partner : ∀ p ∈ ps, p.tree ∈ e.subterms ∧ 2 ^ (p.inner + 1) ≤ size.toNat ∧
    2 * (p.tree.subterms.length : Int) ≤ size + 1
  /-- Where there is room it is what growing comes to, from these draws, whatever comes after
  them. -/
  random_eq : ∀ room draws', (∀ i < used, draws' i = draws i) → Partner.AllFit room ps →
    random room names draws' size = .ok (e, used)
  /-- Where there is none, growing breaks off for that reason and for no other. -/
  breaks_off : ∀ room draws', (∀ i < used, draws' i = draws i) → ¬ Partner.AllFit room ps →
    random room names draws' size = .error .noRoom

section Random

variable {room : Room} {names : List String} {draws : Draws} {size : Int} {leaf r : Expr} {k : Nat}
  {ps : List Partner}

/-- What grows around the first leaf is **the random expression**, where there is room. -/
theorem random_eq_of_grows (hleaf : randomLeaf names draws 0 = .ok (leaf, 2))
    (h : Grows names draws size.toNat 0 leaf 2 r k ps) :
    Partner.AllFit room ps ∧ random room names draws size = .ok (r, k) ∨
      ¬ Partner.AllFit room ps ∧ random room names draws size = .error .noRoom := by
  rw [Partner.AllFit, random]
  by_cases hdraw : room.calls < room.leafDraw
  · exact .inr ⟨fun hfits => Nat.not_le.2 hdraw hfits.1, randomFrom_eq_error hdraw⟩
  · have hdraw := Nat.not_lt.1 hdraw
    rw [and_iff_right hdraw, randomFrom_eq_grow hdraw hleaf]
    exact h.grow_eq room.calls

/-- **A random expression is as large as asked, or one node larger.**  Its variables are among the
names.  It takes less than three draws for each of its nodes, and the same draws, whatever comes
after them, give the same expression.  All this hangs on the room for calls alone: growing breaks
off exactly where there is none for the first leaf or for a partner on the way, and for no other
reason. -/
theorem random_of_size (hnames : names ≠ []) (draws : Draws) (size : Int) :
    ∃ e used ps, Grown names draws size e used ps := by
  obtain ⟨leaf, k₁, hleaf⟩ := exists_randomLeaf hnames draws 0
  obtain ⟨hone, rfl, hname⟩ := of_randomLeaf hleaf
  obtain ⟨r, k, ps, hgrows⟩ := exists_grows hnames draws size.toNat 0 leaf 2
  have hends (room : Room) (draws' : Draws) (hdraws : ∀ i < k, draws' i = draws i) :
      Partner.AllFit room ps ∧ random room names draws' size = .ok (r, k) ∨
        ¬ Partner.AllFit room ps ∧ random room names draws' size = .error .noRoom := by
    have hpast : 2 ≤ k := hgrows.le
    have hleaf' : randomLeaf names draws' 0 = .ok (leaf, 2) :=
      (randomLeaf_congr (hdraws 0 (by omega)) (hdraws 1 (by omega))).trans hleaf
    exact random_eq_of_grows hleaf' (hgrows.congr hdraws)
  refine ⟨r, k, ps, ?_⟩
  exact
    { grows := ⟨leaf, 2, hleaf, hgrows⟩
      mem_names := hgrows.occurrences_subset hname
      single := fun hsize => by rw [length_subterms, hgrows.eq_of_le (by omega), hone]
      length_eq := fun hsize => by
        have hbounds := hgrows.size_bounds hone (Nat.zero_le _)
        rw [length_subterms]
        omega
      used_lt := by
        have hdraws := hgrows.draws_le
        rw [length_subterms]
        omega
      partner := fun p hp => by
        obtain ⟨hpart, hinner, hsize⟩ := hgrows.of_mem p hp
        have hpos : 0 < 2 ^ (p.inner + 1) := Nat.two_pow_pos _
        exact ⟨hpart, hinner, by rw [length_subterms]; omega⟩
      random_eq := fun room draws' hdraws hfits =>
        ((hends room draws' hdraws).resolve_right fun h => h.1 hfits).2
      breaks_off := fun room draws' hdraws hfits =>
        ((hends room draws' hdraws).resolve_left fun h => hfits h.1).2 }

/-- Asked for two nodes, one that is joined has three, from seven draws. -/
theorem random_of_size_joined : ∃ draws : Draws,
    ∀ draws' : Draws, (∀ i < 7, draws' i = draws i) →
      random .standard ["A", "B"] draws' 2 = .ok (bin .and (var "A") (var "B"), 7) := by
  let draws : Draws := fun k => [1, 0, 1, 0, 1, 1, 1].getD k 0
  have hnames : ["A", "B"] ≠ [] := by decide
  have hfirst : randomLeaf ["A", "B"] draws 0 = .ok (var "A", 2) := rfl
  have hsecond : randomLeaf ["A", "B"] draws 4 = .ok (var "B", 6) := rfl
  have hgrows : Grows ["A", "B"] draws (2 : Int).toNat 0 (var "A") 2
      (bin .and (var "A") (var "B")) 7 [⟨0, var "B"⟩] :=
    .join (by decide) (c := .and) (by decide) hsecond (.done (by decide)) (.done (by decide))
  have hfits : Partner.AllFit .standard [⟨0, var "B"⟩] :=
    ⟨by decide, List.forall_mem_singleton.2 (by decide)⟩
  have hrandom := ((random_eq_of_grows hfirst hgrows).resolve_right fun h => h.1 hfits).2
  obtain ⟨e, used, ps, hgrown⟩ := random_of_size hnames draws 2
  have hroom : Partner.AllFit .standard ps := by
    by_contra hnot
    rw [hgrown.breaks_off _ draws (fun _ _ => rfl) hnot] at hrandom
    cases hrandom
  rw [hgrown.random_eq _ draws (fun _ _ => rfl) hroom] at hrandom
  obtain ⟨rfl, rfl⟩ := Prod.mk.inj (Except.ok.inj hrandom)
  exact ⟨draws, fun draws' hdraws => hgrown.random_eq _ draws' hdraws hroom⟩

/-! ## A partner that is too tall -/

theorem size_iterate_not : ∀ (n : Nat) (e : Expr), (not^[n] e).size = e.size + n
  | 0, _ => rfl
  | n + 1, e => by
    rw [Function.iterate_succ_apply, size_iterate_not, size, Nat.add_right_comm, Nat.add_assoc]

theorem depth_iterate_not : ∀ (n : Nat) (e : Expr), (not^[n] e).depth = e.depth + n
  | 0, _ => rfl
  | n + 1, e => by
    rw [Function.iterate_succ_apply, depth_iterate_not, depth, Nat.add_right_comm, Nat.add_assoc]

/-- Where nothing but negation is drawn, an expression **is negated** until it is large enough. -/
theorem grows_negations {size : Nat} : ∀ (n : Nat) {e : Expr} {nodes k : Nat},
    (∀ i < n, pick draws (k + i) 4 = 0) → size = nodes + n + 1 →
      Grows names draws size nodes e k (not^[n] e) (k + n) []
  | 0, _, _, _, _, hsize => .done (by omega)
  | n + 1, e, nodes, k, hdraws, hsize => by
    have hfirst : pick draws k 4 = 0 := hdraws 0 (Nat.succ_pos n)
    have hothers : ∀ i < n, pick draws (k + 1 + i) 4 = 0 := fun i hi =>
      Nat.add_right_comm k 1 i ▸ hdraws (i + 1) (Nat.succ_lt_succ hi)
    have hrest : Grows names draws size (nodes + 1) (not e) (k + 1) (not^[n] (not e))
        (k + 1 + n) [] := grows_negations n hothers (by omega)
    rw [Nat.add_right_comm] at hrest
    exact .negate (by omega) hfirst hrest

/-- **Growing breaks off** where a partner is too tall to be counted; with more room the same draws
give an expression of the size. -/
theorem random_breaks_off : ∃ draws : Draws,
    random .standard ["A"] draws 3003 = .error .noRoom ∧
      ∃ e used, random { Room.standard with calls := 1501 } ["A"] draws 3003 = .ok (e, used) ∧
        e.subterms.length = 3003 := by
  let draws : Draws := fun k => if k = 2 then 1 else if k = 3 then 1500 else 0
  obtain ⟨tall, htall⟩ : ∃ tall, tall = not^[1500] (const false) := ⟨_, rfl⟩
  let joined : Expr := bin .and tall (const false)
  have hfirst : randomLeaf ["A"] draws 0 = .ok (const false, 2) := rfl
  have hleaf : randomLeaf ["A"] draws 4 = .ok (const false, 6) := rfl
  have hzero (k : Nat) (hk : 3 < k) : pick draws k 4 = 0 := by
    have hdraw : draws k = 0 := by
      simp only [draws]
      rw [if_neg (by omega), if_neg (by omega)]
    rw [pick, hdraw]
    rfl
  have hdepth : tall.depth = 1501 := by rw [htall, depth_iterate_not, depth]
  have hsize : tall.size = 1501 := by rw [htall, size_iterate_not, size]
  have hpartner :
      Grows ["A"] draws (partnerSize draws 3 3003 0) 0 (const false) 6 tall 1506 [] := by
    rw [htall]
    exact grows_negations 1500 (fun i _ => hzero _ (by omega)) rfl
  have hside : joinAt draws 1506 .and (const false) tall = joined := if_neg Nat.zero_ne_one
  have hrest : Grows ["A"] draws 3003 (0 + tall.size + 1)
      (joinAt draws 1506 .and (const false) tall) 1507 (not^[1500] joined) 3007 [] := by
    rw [hsize, hside]
    exact grows_negations 1500 (fun i _ => hzero _ (by omega)) rfl
  have hgrows : Grows ["A"] draws (3003 : Int).toNat 0 (const false) 2 (not^[1500] joined) 3007
      [⟨0, tall⟩] :=
    .join (by decide) (c := .and) (by decide) hleaf hpartner hrest
  have hsmall : ¬ Partner.AllFit .standard [⟨0, tall⟩] := fun hfits => by
    have hneed : 0 + tall.depth ≤ 1000 := (List.forall_mem_singleton.1 hfits.2).2
    omega
  have hlarge : Partner.AllFit { Room.standard with calls := 1501 } [⟨0, tall⟩] := by
    have hgrown : 0 + 1 + 1 ≤ 1501 := by decide
    have hneed : 0 + tall.depth ≤ 1501 := by omega
    exact ⟨by decide, List.forall_mem_singleton.2 ⟨hgrown, hneed⟩⟩
  have hlength : (not^[1500] joined).subterms.length = 3003 := by
    rw [length_subterms, size_iterate_not, size, hsize]
    rfl
  exact ⟨draws, ((random_eq_of_grows hfirst hgrows).resolve_left fun h => hsmall h.1).2, _, _,
    ((random_eq_of_grows hfirst hgrows).resolve_right fun h => h.1 hlarge).2, hlength⟩

end Random

end Expr

end TruthTable
