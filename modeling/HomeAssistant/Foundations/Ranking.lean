import HomeAssistant.Foundations.Machine

/-!
# Ranks

A rank of the states of a machine that each event of one kind lowers by one, and no other event
changes, counts the events of that kind that are left (`countP_add_rank`). If from every state of
positive rank some run leads to a lower one, then some run leads to rank zero (`exists_rank_zero`).
-/

namespace HomeAssistant.Machine

variable {σ ε : Type*} {step : σ → ε → Option σ} {ok : ε → Prop} {I : σ → Prop} {s s' : σ}
  {es : List ε}

/-- **The counting rule** for ranks. -/
theorem countP_add_rank (p : ε → Bool) (rank : σ → ℕ)
    (hI : ∀ s e s', I s → ok e → step s e = some s' → I s')
    (hrank : ∀ s e s', I s → ok e → step s e = some s' →
      (if p e then 1 else 0) + rank s' = rank s)
    (hs : I s) (hok : ∀ e ∈ es, ok e) (hrun : run step s es = some s') :
    es.countP p + rank s' = rank s := by
  induction es generalizing s with
  | nil =>
    cases hrun
    exact Nat.zero_add _
  | cons e es ih =>
    obtain ⟨s₁, hs₁, hrun⟩ := (run_cons_eq_some step).1 hrun
    have he := hok e List.mem_cons_self
    have hfirst := hrank s e s₁ hs he hs₁
    have hrest := ih (hI s e s₁ hs he hs₁) (fun e he => hok e (List.mem_cons_of_mem _ he)) hrun
    rw [List.countP_cons]
    omega

/-- **The progress rule** for ranks. -/
theorem exists_rank_zero (rank : σ → ℕ)
    (hlower : ∀ s, I s → rank s ≠ 0 →
      ∃ es s', (∀ e ∈ es, ok e) ∧ run step s es = some s' ∧ I s' ∧ rank s' < rank s)
    (hs : I s) : ∃ es s', (∀ e ∈ es, ok e) ∧ run step s es = some s' ∧ I s' ∧ rank s' = 0 := by
  induction hn : rank s using Nat.strong_induction_on generalizing s with
  | _ n ih =>
    by_cases hzero : rank s = 0
    · exact ⟨[], s, by simp, rfl, hs, hzero⟩
    obtain ⟨es, s₁, hok, hrun, hs₁, hlt⟩ := hlower s hs hzero
    obtain ⟨fs, s', hok', hrun', hs', hrank⟩ := ih (rank s₁) (hn ▸ hlt) hs₁ rfl
    refine ⟨es ++ fs, s', fun e he => ?_, ?_, hs', hrank⟩
    · exact (List.mem_append.1 he).elim (hok e) (hok' e)
    · rw [run_append, hrun, Option.bind_some, hrun']

end HomeAssistant.Machine
