import Mathlib.Data.List.Forall2
import Mathlib.Tactic.Common

/-!
# Computations that may fail

Inversion of a successful computation in `Except`, and monadic loops: a loop none of whose
steps fails is the pure loop, and a successful `mapM` relates the two lists entry by entry.
`Raises P x` bounds the errors of a computation, with one rule for each way to compose.
-/

namespace Lib.Fallible

variable {ε α β : Type}

theorem ok_bind (a : α) (f : α → Except ε β) : ((.ok a : Except ε α) >>= f) = f a := rfl

theorem bind_eq_ok {x : Except ε α} {f : α → Except ε β} {b : β} :
    (x >>= f) = .ok b ↔ ∃ a, x = .ok a ∧ f a = .ok b := by
  cases x with
  | error e => exact ⟨fun h => (nomatch h), fun ⟨_, h, _⟩ => (nomatch h)⟩
  | ok a => exact ⟨fun h => ⟨a, rfl, h⟩, fun ⟨_, h, hf⟩ => Except.ok.inj h ▸ hf⟩

/-- A computation that cannot fail after its first step succeeds when this step does. -/
theorem bind_ok_iff {x : Except ε α} {f : α → Except ε β}
    (hf : ∀ a, ∃ b, f a = .ok b) : (∃ b, (x >>= f) = .ok b) ↔ ∃ a, x = .ok a := by
  constructor
  · rintro ⟨b, hb⟩
    obtain ⟨a, ha, -⟩ := bind_eq_ok.mp hb
    exact ⟨a, ha⟩
  · rintro ⟨a, ha⟩
    obtain ⟨b, hb⟩ := hf a
    exact ⟨b, bind_eq_ok.mpr ⟨a, ha, hb⟩⟩

theorem pure_eq_ok {a b : α} : (pure a : Except ε α) = .ok b ↔ a = b := by
  rw [pure, Applicative.toPure]
  exact ⟨Except.ok.inj, congrArg Except.ok⟩

theorem eq_ok_of_toOption {x : Except ε α} {a : α} (h : x.toOption = some a) : x = .ok a := by
  cases x with
  | error e => cases h
  | ok b => rw [Option.some.inj h]

theorem ne_ok_of_toOption {x : Except ε α} (h : x.toOption = none) (a : α) : x ≠ .ok a := by
  rintro rfl
  cases h

theorem mapM_ok {f : α → Except ε β} {g : α → β} {l : List α} (h : ∀ x ∈ l, f x = .ok (g x)) :
    l.mapM f = .ok (l.map g) := by
  induction l with
  | nil => rfl
  | cons x l ih =>
    rw [List.mapM_cons, h x List.mem_cons_self, ih fun y hy => h y (List.mem_cons_of_mem _ hy)]
    rfl

theorem foldlM_ok {f : β → α → Except ε β} {g : β → α → β} {l : List α}
    (h : ∀ b, ∀ x ∈ l, f b x = .ok (g b x)) (b : β) : l.foldlM f b = .ok (l.foldl g b) := by
  induction l generalizing b with
  | nil => rfl
  | cons x l ih =>
    rw [List.foldlM_cons, h b x List.mem_cons_self]
    exact ih (fun c y hy => h c y (List.mem_cons_of_mem _ hy)) (g b x)

/-- A `mapM` succeeds exactly when every step does, with the results in order. -/
theorem mapM_eq_ok {f : α → Except ε β} {l : List α} {r : List β} :
    l.mapM f = .ok r ↔ List.Forall₂ (fun x y => f x = .ok y) l r := by
  induction l generalizing r with
  | nil =>
    rw [List.mapM_nil, pure_eq_ok, List.forall₂_nil_left_iff]
    exact eq_comm
  | cons x l ih =>
    simp only [List.mapM_cons, bind_eq_ok, pure_eq_ok, List.forall₂_cons_left_iff, ih]
    constructor
    · rintro ⟨y, hy, ys, hys, rfl⟩
      exact ⟨y, ys, hy, hys, rfl⟩
    · rintro ⟨y, ys, hy, hys, rfl⟩
      exact ⟨y, hy, ys, hys, rfl⟩

/-- Every result of a `mapM` is that of a step. -/
theorem exists_of_mem_mapM {f : α → Except ε β} {l : List α} {r : List β} (h : l.mapM f = .ok r)
    {b : β} (hb : b ∈ r) : ∃ a ∈ l, f a = .ok b := by
  have hrel := mapM_eq_ok.mp h
  clear h
  induction hrel with
  | nil => cases hb
  | @cons a c l r hac _ ih =>
    rcases List.mem_cons.mp hb with rfl | hb
    · exact ⟨a, List.mem_cons_self, hac⟩
    · obtain ⟨a', ha', hfa'⟩ := ih hb
      exact ⟨a', List.mem_cons_of_mem a ha', hfa'⟩

/-- When the steps that succeed are known with their results, so is the `mapM`. -/
theorem mapM_eq_ok_iff {f : α → Except ε β} {g : α → β} {C : α → Prop}
    (h : ∀ x y, f x = .ok y ↔ C x ∧ y = g x) {l : List α} {r : List β} :
    l.mapM f = .ok r ↔ (∀ x ∈ l, C x) ∧ r = l.map g := by
  have hmap : List.Forall₂ (fun x y => y = g x) l r ↔ r = l.map g := by
    rw [eq_comm, ← List.forall₂_eq_eq_eq, List.forall₂_map_left_iff]
    simp only [eq_comm]
  simp only [mapM_eq_ok, h, List.forall₂_and_left, hmap]

/-! ## Loops over a mutable state -/

/-- A loop that an exception ends; the state at that point is kept. -/
def forEach {σ : Type} (step : σ → α → Except ε Unit × σ) : σ → List α → Except ε Unit × σ
  | s, [] => (.ok (), s)
  | s, a :: as =>
    match step s a with
    | (.ok (), s') => forEach step s' as
    | (.error e, s') => (.error e, s')

section forEach

variable {σ : Type} {step : σ → α → Except ε Unit × σ} {s : σ} {a : α} {l : List α}

theorem forEach_cons_ok (h : (step s a).1 = .ok ()) :
    forEach step s (a :: l) = forEach step (step s a).2 l := by
  rw [forEach]
  split <;> rename_i heq <;> rw [heq] at h ⊢
  cases h

theorem forEach_cons_error {e : ε} (h : (step s a).1 = .error e) :
    forEach step s (a :: l) = (.error e, (step s a).2) := by
  rw [forEach]
  split <;> rename_i heq <;> rw [heq] at h ⊢
  · cases h
  · exact congrArg (·, _) h

/-- What a pass preserves, whether it raises or not, the loop preserves. -/
theorem forEach_preserves {I : σ → Prop} (hkeep : ∀ s, ∀ a ∈ l, I s → I (step s a).2) (hs : I s) :
    I (forEach step s l).2 := by
  induction l generalizing s with
  | nil => exact hs
  | cons a l ih =>
    have hnext : I (step s a).2 := hkeep s a List.mem_cons_self hs
    cases hstep : (step s a).1 with
    | error e =>
      rw [forEach_cons_error hstep]
      exact hnext
    | ok u =>
      rw [forEach_cons_ok hstep]
      exact ih (fun s b hb => hkeep s b (List.mem_cons_of_mem a hb)) hnext

/-- A loop ends normally when every pass does, which under an invariant depends on the element
alone. -/
theorem forEach_ok_iff {I : σ → Prop} {C : α → Prop} (hkeep : ∀ s a, I s → I (step s a).2)
    (hok : ∀ s a, I s → ((step s a).1 = .ok () ↔ C a)) (hs : I s) :
    (forEach step s l).1 = .ok () ↔ ∀ a ∈ l, C a := by
  induction l generalizing s with
  | nil => simp [forEach]
  | cons a l ih =>
    rw [List.forall_mem_cons, ← hok s a hs]
    cases hstep : (step s a).1 with
    | error e =>
      rw [forEach_cons_error hstep]
      simp
    | ok u =>
      rw [forEach_cons_ok hstep, ih (hkeep s a hs)]
      simp

/-- A loop none of whose passes raises ends normally and keeps the invariant. -/
theorem forEach_ok {I : σ → Prop}
    (hstep : ∀ s, ∀ a ∈ l, I s → (step s a).1 = .ok () ∧ I (step s a).2) (hs : I s) :
    (forEach step s l).1 = .ok () ∧ I (forEach step s l).2 := by
  induction l generalizing s with
  | nil => exact ⟨rfl, hs⟩
  | cons a l ih =>
    obtain ⟨hok, hnext⟩ := hstep s a List.mem_cons_self hs
    rw [forEach_cons_ok hok]
    exact ih (fun s b hb => hstep s b (List.mem_cons_of_mem a hb)) hnext

/-- What one of the elements brings about and no other undoes holds at the end. -/
theorem forEach_establishes {I P : σ → Prop}
    (hstep : ∀ s, ∀ a ∈ l, I s → (step s a).1 = .ok () ∧ I (step s a).2)
    (hkeep : ∀ s, ∀ a ∈ l, I s → P s → P (step s a).2) (ha : a ∈ l)
    (hbring : ∀ s, I s → P (step s a).2) (hs : I s) : P (forEach step s l).2 := by
  induction l generalizing s with
  | nil => cases ha
  | cons b l ih =>
    have hrest := fun s c hc => hstep s c (List.mem_cons_of_mem b hc)
    obtain ⟨hok, hnext⟩ := hstep s b List.mem_cons_self hs
    rw [forEach_cons_ok hok]
    rcases List.mem_cons.mp ha with rfl | ha
    · -- from here on `P` is part of the invariant
      refine (forEach_preserves (I := fun s => I s ∧ P s) ?_ ⟨hnext, hbring s hs⟩).2
      rintro s c hc ⟨hI, hP⟩
      exact ⟨(hrest s c hc hI).2, hkeep s c (List.mem_cons_of_mem a hc) hI hP⟩
    · exact ih hrest (fun s c hc => hkeep s c (List.mem_cons_of_mem b hc)) ha hnext

/-- The elements whose passes end normally, up to the first pass that raises. -/
def completed (step : σ → α → Except ε Unit × σ) : σ → List α → List α
  | _, [] => []
  | s, a :: as =>
    match step s a with
    | (.ok (), s') => a :: completed step s' as
    | (.error _, _) => []

theorem completed_cons_ok (h : (step s a).1 = .ok ()) :
    completed step s (a :: l) = a :: completed step (step s a).2 l := by
  rw [completed]
  split <;> rename_i heq <;> rw [heq] at h ⊢
  cases h

theorem completed_cons_error {e : ε} (h : (step s a).1 = .error e) :
    completed step s (a :: l) = [] := by
  rw [completed]
  split <;> rename_i heq <;> rw [heq] at h
  cases h

theorem completed_isPrefix (step : σ → α → Except ε Unit × σ) (s : σ) (l : List α) :
    completed step s l <+: l := by
  induction l generalizing s with
  | nil => exact List.nil_prefix
  | cons a l ih =>
    cases hstep : (step s a).1 with
    | error e =>
      rw [completed_cons_error hstep]
      exact List.nil_prefix
    | ok u =>
      rw [completed_cons_ok hstep]
      exact List.cons_prefix_cons.mpr ⟨rfl, ih _⟩

/-- Every pass of a loop that ends normally ends normally. -/
theorem completed_eq (h : (forEach step s l).1 = .ok ()) : completed step s l = l := by
  induction l generalizing s with
  | nil => rfl
  | cons a l ih =>
    cases hstep : (step s a).1 with
    | error e =>
      rw [forEach_cons_error hstep] at h
      cases h
    | ok u =>
      rw [forEach_cons_ok hstep] at h
      rw [completed_cons_ok hstep, ih h]

/-- When a pass that raises changes nothing, the loop leaves what the completed passes leave. -/
theorem forEach_snd {I : σ → Prop} {g : σ → α → σ} (hkeep : ∀ s a, I s → I (step s a).2)
    (hok : ∀ s a, I s → (step s a).1 = .ok () → (step s a).2 = g s a)
    (herror : ∀ s a e, (step s a).1 = .error e → (step s a).2 = s) (hs : I s) :
    (forEach step s l).2 = (completed step s l).foldl g s := by
  induction l generalizing s with
  | nil => rfl
  | cons a l ih =>
    cases hstep : (step s a).1 with
    | error e =>
      rw [forEach_cons_error hstep, completed_cons_error hstep]
      exact herror s a e hstep
    | ok u =>
      rw [forEach_cons_ok hstep, completed_cons_ok hstep, List.foldl_cons, ih (hkeep s a hs),
        hok s a hs hstep]

theorem forEach_append (l l' : List α) : forEach step s (l ++ l')
    = match forEach step s l with
      | (.ok (), s') => forEach step s' l'
      | (.error e, s') => (.error e, s') := by
  induction l generalizing s with
  | nil => rfl
  | cons a l ih =>
    cases hstep : (step s a).1 with
    | error e => rw [List.cons_append, forEach_cons_error hstep, forEach_cons_error hstep]
    | ok u => rw [List.cons_append, forEach_cons_ok hstep, forEach_cons_ok hstep, ih]

/-- Behind a loop that ends normally, the next elements go on where it has stopped. -/
theorem forEach_append_ok (h : (forEach step s l).1 = .ok ()) (l' : List α) :
    forEach step s (l ++ l') = forEach step (forEach step s l).2 l' := by
  rw [forEach_append]
  split <;> rename_i heq <;> rw [heq] at h ⊢
  cases h

theorem forEach_singleton (s : σ) (a : α) : forEach step s [a] = step s a := by
  rw [forEach]
  split <;> rename_i heq
  · rw [forEach, heq]
  · exact heq.symm

/-- A loop within a loop, as one loop over the pairs. -/
theorem forEach_pairs {γ : Type} {f : γ → List α} {step : γ → σ → α → Except ε Unit × σ}
    (gs : List γ) (s : σ) : forEach (fun s g => forEach (step g) s (f g)) s gs
      = forEach (fun s p => step p.1 s p.2) s (gs.flatMap fun g => (f g).map (g, ·)) := by
  have hmap (g : γ) (s : σ) (l : List α) :
      forEach (fun s p => step p.1 s p.2) s (l.map (g, ·)) = forEach (step g) s l := by
    induction l generalizing s with
    | nil => rfl
    | cons a l ih =>
      rw [List.map_cons, forEach, forEach]
      split <;> rename_i heq
      · rw [heq]
        exact ih _
      · rw [heq]
  induction gs generalizing s with
  | nil => rfl
  | cons g gs ih =>
    rw [List.flatMap_cons, forEach_append, hmap, forEach]
    split
    · exact ih _
    · rfl

end forEach

/-! ## Bounds on errors -/

/-- Every error of `x` is one of those in `P`. -/
def Raises (P : ε → Prop) (x : Except ε α) : Prop := ∀ e, x = .error e → P e

variable {P Q : ε → Prop}

theorem raises_ok (a : α) : Raises P (.ok a : Except ε α) := fun _ h => (nomatch h)

theorem raises_error {e : ε} (h : P e) : Raises P (.error e : Except ε α) :=
  fun _ he => Except.error.inj he ▸ h

theorem Raises.mono {x : Except ε α} (h : Raises P x) (hPQ : ∀ e, P e → Q e) : Raises Q x :=
  fun e he => hPQ e (h e he)

theorem Raises.bind {x : Except ε α} {f : α → Except ε β} (hx : Raises P x)
    (hf : ∀ a, x = .ok a → Raises P (f a)) : Raises P (x >>= f) := by
  cases x with
  | error e => exact raises_error (hx e rfl)
  | ok a => exact hf a rfl

theorem Raises.map {x : Except ε α} (hx : Raises P x) (g : α → β) : Raises P (x.map g) := by
  cases x with
  | error e => exact raises_error (hx e rfl)
  | ok a => exact raises_ok (g a)

theorem raises_mapM {f : α → Except ε β} {l : List α} (h : ∀ x ∈ l, Raises P (f x)) :
    Raises P (l.mapM f) := by
  induction l with
  | nil => exact raises_ok []
  | cons x l ih =>
    rw [List.mapM_cons]
    refine (h x List.mem_cons_self).bind fun y _ => ?_
    exact (ih fun z hz => h z (List.mem_cons_of_mem x hz)).bind fun ys _ => raises_ok _

end Lib.Fallible
