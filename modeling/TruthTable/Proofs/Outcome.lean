import TruthTable.Error

/-!
# Proofs/Outcome — computations that may fail, taken apart

A computation in sequence ends in a value when each of its parts does, and in the refusal of the
first part that is refused.

* `bind_eq_ok_iff`, `bind_eq_error_iff` — the two ways a sequence of two parts ends.
* `mapM_eq_ok`, `mapM_eq_error`, `forM_eq_ok_iff` — the same for one part per element of a list.
* `foldlM_eq_error_iff` — the element at which a fold is refused.
-/

namespace TruthTable

variable {α β ε δ : Type}

instance decidableEqOutcome [DecidableEq ε] [DecidableEq α] : DecidableEq (Except ε α)
  | .ok a, .ok b => decidable_of_iff (a = b) ⟨congrArg _, Except.ok.inj⟩
  | .error d, .error e => decidable_of_iff (d = e) ⟨congrArg _, Except.error.inj⟩
  | .ok _, .error _ | .error _, .ok _ => isFalse fun h => (nomatch h)

/-- **Both parts end in a value.** -/
theorem bind_eq_ok_iff {x : Except ε α} {f : α → Except ε β} {b : β} :
    x >>= f = .ok b ↔ ∃ a, x = .ok a ∧ f a = .ok b := by
  cases x <;> simp [bind, Except.bind]

/-- **The first part is refused, or the second one.** -/
theorem bind_eq_error_iff {x : Except ε α} {f : α → Except ε β} {e : ε} :
    x >>= f = .error e ↔ x = .error e ∨ ∃ a, x = .ok a ∧ f a = .error e := by
  cases x <;> simp [bind, Except.bind]

theorem map_eq_ok_iff {x : Except ε α} {f : α → β} {b : β} :
    f <$> x = .ok b ↔ ∃ a, x = .ok a ∧ f a = b := by
  cases x <;> simp [Functor.map, Except.map]

theorem map_eq_error_iff {x : Except ε α} {f : α → β} {e : ε} :
    f <$> x = .error e ↔ x = .error e := by
  cases x <;> simp [Functor.map, Except.map]

theorem mapError_eq_ok_iff {f : ε → δ} {a : α} : ∀ {x : Except ε α},
    x.mapError f = .ok a ↔ x = .ok a
  | .ok _ => ⟨fun h => congrArg _ (Except.ok.inj h), fun h => congrArg _ (Except.ok.inj h)⟩
  | .error _ => ⟨fun h => (nomatch h), fun h => (nomatch h)⟩

theorem mapError_eq_error_iff {f : ε → δ} {d : δ} : ∀ {x : Except ε α},
    x.mapError f = .error d ↔ ∃ e, x = .error e ∧ f e = d
  | .ok _ => ⟨fun h => (nomatch h), fun ⟨_, h, _⟩ => (nomatch h)⟩
  | .error e => by
    constructor
    · exact fun h => ⟨e, rfl, Except.error.inj h⟩
    · rintro ⟨_, h, rfl⟩
      rw [Except.error.inj h]
      rfl

theorem toOption_eq_some_iff {a : α} : ∀ {x : Except ε α}, x.toOption = some a ↔ x = .ok a
  | .ok _ => ⟨fun h => congrArg _ (Option.some.inj h), fun h => congrArg _ (Except.ok.inj h)⟩
  | .error _ => ⟨fun h => (nomatch h), fun h => (nomatch h)⟩

/-- What is done to an element that is there. -/
theorem mapM_some_eq_ok_iff {f : α → Except ε β} {a : α} {r : Option β} :
    (some a).mapM f = .ok r ↔ ∃ b, f a = .ok b ∧ some b = r :=
  map_eq_ok_iff

/-- A list whose elements all have a value has the list of these. -/
theorem mapM_eq_ok {f : α → Except ε β} {g : α → β} : ∀ {xs : List α},
    (∀ x ∈ xs, f x = .ok (g x)) → xs.mapM f = .ok (xs.map g)
  | [], _ => rfl
  | x :: xs, h => by
    obtain ⟨hx, hxs⟩ := List.forall_mem_cons.1 h
    rw [List.mapM_cons, hx, mapM_eq_ok hxs]
    rfl

/-- One part per element is refused **as the first part that is refused**. -/
theorem mapM_eq_error {f : α → Except ε β} {e : ε} {x : α} {rest : List α} (hx : f x = .error e) :
    ∀ {read : List α}, (∀ y ∈ read, ∃ b, f y = .ok b) → (read ++ x :: rest).mapM f = .error e
  | [], _ => by
    rw [List.nil_append, List.mapM_cons, hx]
    rfl
  | y :: read, h => by
    obtain ⟨⟨b, hy⟩, hread⟩ := List.forall_mem_cons.1 h
    rw [List.cons_append, List.mapM_cons, hy]
    exact bind_eq_error_iff.2 (.inr ⟨b, rfl, bind_eq_error_iff.2 (.inl (mapM_eq_error hx hread))⟩)

/-- **A check of all elements passes** when it passes for each of them. -/
theorem forM_eq_ok_iff {f : α → Except ε Unit} : ∀ {xs : List α},
    xs.forM f = .ok () ↔ ∀ x ∈ xs, f x = .ok ()
  | [] => by simp [pure, Except.pure]
  | x :: xs => by
    have hcons : (x :: xs).forM f = f x >>= fun _ => xs.forM f := rfl
    rw [hcons, bind_eq_ok_iff, List.forall_mem_cons]
    exact ⟨fun ⟨_, hx, hxs⟩ => ⟨hx, forM_eq_ok_iff.1 hxs⟩,
      fun ⟨hx, hxs⟩ => ⟨(), hx, forM_eq_ok_iff.2 hxs⟩⟩

/-- A check of all elements fails at one of them. -/
theorem exists_of_forM_eq_error {f : α → Except ε Unit} {e : ε} : ∀ {xs : List α},
    xs.forM f = .error e → ∃ x ∈ xs, f x = .error e
  | [], h => nomatch h
  | x :: xs, h => by
    have hcons : (x :: xs).forM f = f x >>= fun _ => xs.forM f := rfl
    rw [hcons, bind_eq_error_iff] at h
    obtain h | ⟨_, -, h⟩ := h
    · exact ⟨x, List.mem_cons_self, h⟩
    · obtain ⟨y, hy, h⟩ := exists_of_forM_eq_error h
      exact ⟨y, List.mem_cons_of_mem _ hy, h⟩

/-- **A fold is refused** at one of the elements, behind those that it went through. -/
theorem foldlM_eq_error_iff {f : β → α → Except ε β} {e : ε} : ∀ {xs : List α} {b : β},
    xs.foldlM f b = .error e ↔
      ∃ read x rest b', xs = read ++ x :: rest ∧ read.foldlM f b = .ok b' ∧ f b' x = .error e
  | [], b => by
    simp [pure, Except.pure]
  | x :: xs, b => by
    rw [List.foldlM_cons, bind_eq_error_iff]
    constructor
    · rintro (h | ⟨b', hx, h⟩)
      · exact ⟨[], x, xs, b, rfl, rfl, h⟩
      · obtain ⟨read, y, rest, c, rfl, hrun, hy⟩ := foldlM_eq_error_iff.1 h
        exact ⟨x :: read, y, rest, c, rfl, by rw [List.foldlM_cons, hx]; exact hrun, hy⟩
    · rintro ⟨_ | ⟨y, read⟩, z, rest, c, hxs, hrun, hz⟩
      · obtain ⟨rfl, rfl⟩ := List.cons.inj hxs
        obtain rfl := Except.ok.inj hrun
        exact .inl hz
      · obtain ⟨rfl, rfl⟩ := List.cons.inj hxs
        rw [List.foldlM_cons, bind_eq_ok_iff] at hrun
        obtain ⟨b', hx, hrun⟩ := hrun
        exact .inr ⟨b', hx, foldlM_eq_error_iff.2 ⟨read, z, rest, c, rfl, hrun, hz⟩⟩

end TruthTable
