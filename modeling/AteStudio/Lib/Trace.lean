import Mathlib

/-!
# What a program adds to a log

An exception keeps what was added before it.
-/

namespace AteStudio.Trace

variable {ε σ ω α β : Type} {log : σ → List ω}

structure Emits (log : σ → List ω) (x : EStateM ε σ α) (Q : α → List ω → Prop) : Prop where
  ok : ∀ s a s', x s = .ok a s' → ∃ t, log s' = log s ++ t ∧ Q a t
  error : ∀ s e s', x s = .error e s' → ∃ t, log s' = log s ++ t

namespace Emits

variable {x : EStateM ε σ α} {P Q : α → List ω → Prop}

theorem mono (h : Emits log x P) (hPQ : ∀ a t, P a t → Q a t) : Emits log x Q where
  ok s a s' hx := by
    obtain ⟨t, ht, hP⟩ := h.ok s a s' hx
    exact ⟨t, ht, hPQ a t hP⟩
  error := h.error

theorem pure {a : α} (h : Q a []) : Emits log (pure a : EStateM ε σ α) Q where
  ok s b s' hx := by
    cases hx
    exact ⟨[], (List.append_nil _).symm, h⟩
  error s e s' hx := nomatch hx

theorem bind {f : α → EStateM ε σ β} {Q : β → List ω → Prop} (hx : Emits log x P)
    (hf : ∀ a t, P a t → Emits log (f a) fun b t' => Q b (t ++ t')) : Emits log (x >>= f) Q where
  ok s b s'' h := by
    change EStateM.bind x f s = _ at h
    unfold EStateM.bind at h
    split at h
    · next a s' ha =>
      obtain ⟨t, ht, hP⟩ := hx.ok s a s' ha
      obtain ⟨t', ht', hQ⟩ := (hf a t hP).ok s' b s'' h
      exact ⟨t ++ t', by rw [ht', ht, List.append_assoc], hQ⟩
    · cases h
  error s e s'' h := by
    change EStateM.bind x f s = _ at h
    unfold EStateM.bind at h
    split at h
    · next a s' ha =>
      obtain ⟨t, ht, hP⟩ := hx.ok s a s' ha
      obtain ⟨t', ht'⟩ := (hf a t hP).error s' e s'' h
      exact ⟨t ++ t', by rw [ht', ht, List.append_assoc]⟩
    · next e' s' he =>
      cases h
      exact hx.error s e _ he

theorem tryCatch {h : ε → EStateM ε σ α} (hx : Emits log x Q)
    (hh : ∀ e t, Emits log (h e) fun a t' => Q a (t ++ t')) : Emits log (tryCatch x h) Q where
  ok s a s'' hr := by
    change EStateM.tryCatch x h s = _ at hr
    unfold EStateM.tryCatch at hr
    dsimp only at hr
    split at hr
    · next e s' he =>
      obtain ⟨t, ht⟩ := hx.error s e s' he
      obtain ⟨t', ht', hQ⟩ := (hh e t).ok _ a s'' hr
      exact ⟨t ++ t', by rw [ht', ← List.append_assoc, ← ht]; rfl, hQ⟩
    · next hok => exact hx.ok s a s'' hr
  error s e s'' hr := by
    change EStateM.tryCatch x h s = _ at hr
    unfold EStateM.tryCatch at hr
    dsimp only at hr
    split at hr
    · next e' s' he =>
      obtain ⟨t, ht⟩ := hx.error s e' s' he
      obtain ⟨t', ht'⟩ := (hh e' t).error _ e s'' hr
      exact ⟨t ++ t', by rw [ht', ← List.append_assoc, ← ht]; rfl⟩
    · next hok => exact hx.error s e s'' hr

end Emits

end AteStudio.Trace
