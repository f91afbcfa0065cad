/-! One thing after another: steps that may fail, an attempt at each of a list, and machines. -/
namespace Hoist

section Steps

variable {ε σ α β : Type} {x : EStateM ε σ α} {f : α → EStateM ε σ β} {s t : σ}

theorem bind_ok {a : α} (h : x s = .ok a t) : (x >>= f) s = f a t := by
  refine (EStateM.run_bind x f).trans ?_
  rw [EStateM.run, h]
  rfl

theorem bind_error {e : ε} (h : x s = .error e t) : (x >>= f) s = .error e t := by
  refine (EStateM.run_bind x f).trans ?_
  rw [EStateM.run, h]

end Steps

section Attempts

variable {ε α β : Type} {f g : α → Except ε β} {a : α} {l l' : List α} {b : β} {bs : List β}

theorem mapM_cons_ok (ha : f a = .ok b) (hl : l.mapM f = .ok bs) :
    (a :: l).mapM f = .ok (b :: bs) := by
  rw [List.mapM_cons, ha, hl]
  rfl

theorem mapM_cons_eq_ok (h : (a :: l).mapM f = .ok bs) :
    ∃ b rest, f a = .ok b ∧ l.mapM f = .ok rest ∧ bs = b :: rest := by
  rw [List.mapM_cons] at h
  cases ha : f a with
  | error e => simp [ha, bind, Except.bind] at h
  | ok b =>
    cases hl : l.mapM f with
    | error e => simp [ha, hl, bind, Except.bind] at h
    | ok rest =>
      refine ⟨b, rest, rfl, rfl, ?_⟩
      simpa [ha, hl, bind, Except.bind, pure, Except.pure] using h.symm

/-- Attempts that succeed with other results succeed with these on the whole list. -/
theorem mapM_map_ok {h : β → β} (hfg : ∀ a b, f a = .ok b → g a = .ok (h b))
    (hl : l.mapM f = .ok bs) : l.mapM g = .ok (bs.map h) := by
  induction l generalizing bs with
  | nil =>
    obtain rfl : [] = bs := by simpa [pure, Except.pure] using hl
    rfl
  | cons a l ih =>
    obtain ⟨b, rest, ha, hrest, rfl⟩ := mapM_cons_eq_ok hl
    exact mapM_cons_ok (hfg a b ha) (ih hrest)

/-- The first attempt that fails decides. -/
theorem mapM_eq_error_iff {e : ε} : l.mapM f = .error e ↔
    ∃ before a after, l = before ++ a :: after ∧
      (∀ x ∈ before, ∃ b, f x = .ok b) ∧ f a = .error e := by
  constructor
  · intro h
    induction l with
    | nil => simp [pure, Except.pure] at h
    | cons x l ih =>
      rw [List.mapM_cons] at h
      cases hx : f x with
      | error e' => exact ⟨[], x, l, rfl, by simp, by simpa [hx, bind, Except.bind] using h⟩
      | ok b =>
        cases hl : l.mapM f with
        | error e' =>
          obtain ⟨before, a, after, rfl, hbefore, ha⟩ :=
            ih (by simpa [hx, hl, bind, Except.bind] using h)
          refine ⟨x :: before, a, after, rfl, fun y hy => ?_, ha⟩
          rcases List.mem_cons.1 hy with rfl | hy
          · exact ⟨b, hx⟩
          · exact hbefore y hy
        | ok bs => simp [hx, hl, bind, Except.bind, pure, Except.pure] at h
  · rintro ⟨before, a, after, rfl, hbefore, ha⟩
    induction before with
    | nil =>
      rw [List.nil_append, List.mapM_cons, ha]
      rfl
    | cons x before ih =>
      obtain ⟨b, hx⟩ := hbefore x (by simp)
      have hrest := ih fun y hy => hbefore y (by simp [hy])
      rw [List.cons_append, List.mapM_cons, hx, hrest]
      rfl

/-- In whatever order they are made, the same attempts succeed and give the same results. -/
theorem mapM_perm (hl : l.Perm l') (h : l.mapM f = .ok bs) :
    ∃ bs', l'.mapM f = .ok bs' ∧ bs.Perm bs' := by
  induction hl generalizing bs with
  | nil => exact ⟨bs, h, .refl _⟩
  | cons a _ ih =>
    obtain ⟨b, rest, ha, hrest, rfl⟩ := mapM_cons_eq_ok h
    obtain ⟨rest', hrest', hperm⟩ := ih hrest
    exact ⟨b :: rest', mapM_cons_ok ha hrest', hperm.cons b⟩
  | swap a a' l =>
    obtain ⟨b', tail, ha', htail, rfl⟩ := mapM_cons_eq_ok h
    obtain ⟨b, rest, ha, hrest, rfl⟩ := mapM_cons_eq_ok htail
    exact ⟨b :: b' :: rest, mapM_cons_ok ha (mapM_cons_ok ha' hrest), .swap b b' rest⟩
  | trans _ _ ih ih' =>
    obtain ⟨bs', h', hperm⟩ := ih h
    obtain ⟨bs'', h'', hperm'⟩ := ih' h'
    exact ⟨bs'', h'', hperm.trans hperm'⟩

end Attempts

section Machines

variable {σ τ ι ο : Type}

/-- The answers to some inputs, given one after the other, and the state that they lead to. -/
def answerAll (respond : σ → ι → ο × σ) (s : σ) : List ι → List ο × σ
  | [] => ([], s)
  | i :: rest =>
    let (answer, s) := respond s i
    let (answers, s) := answerAll respond s rest
    (answer :: answers, s)

/-- Machines that answer alike and stay related, whatever the input, do so for any inputs. -/
theorem answerAll_related {f : σ → ι → ο × σ} {g : τ → ι → ο × τ} {R : σ → τ → Prop}
    (hstep : ∀ s t i, R s t → (f s i).1 = (g t i).1 ∧ R (f s i).2 (g t i).2)
    {s : σ} {t : τ} (h : R s t) (inputs : List ι) :
    (answerAll f s inputs).1 = (answerAll g t inputs).1 ∧
      R (answerAll f s inputs).2 (answerAll g t inputs).2 := by
  induction inputs generalizing s t with
  | nil => exact ⟨rfl, h⟩
  | cons i rest ih =>
    obtain ⟨hanswer, hnext⟩ := hstep s t i h
    obtain ⟨hanswers, hlast⟩ := ih hnext
    simp only [answerAll, hanswer, hanswers]
    exact ⟨trivial, hlast⟩

end Machines
end Hoist
