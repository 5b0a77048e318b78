/-!
# Serving requests

Something that serves requests gives an answer to each and goes on from
the state that the request leaves. What is to be said of all requests is
said of one: that it is answered as something simpler answers it, and that
the two go on alike.
-/

namespace ScalarLang

variable {S T R A : Type} {serve : S → R → A × S} {serve' : T → R → A × T}

/-- The answers to requests made one after the other, and the state that
they leave. -/
def serveAll (serve : S → R → A × S) : S → List R → List A × S
  | s, [] => ([], s)
  | s, r :: rs =>
    let (answer, s) := serve s r
    let (answers, s) := serveAll serve s rs
    (answer :: answers, s)

/-- **If two states answer one request alike and go on to two that do, they
answer all requests alike.** -/
theorem serveAll_of_related {Alike : S → T → Prop}
    (h : ∀ s t, Alike s t → ∀ r,
      (serve s r).1 = (serve' t r).1 ∧ Alike (serve s r).2 (serve' t r).2)
    {s : S} {t : T} (hst : Alike s t) (rs : List R) :
    (serveAll serve s rs).1 = (serveAll serve' t rs).1 ∧
      Alike (serveAll serve s rs).2 (serveAll serve' t rs).2 := by
  induction rs generalizing s t with
  | nil => exact ⟨rfl, hst⟩
  | cons r rs ih =>
    obtain ⟨hanswer, hnext⟩ := h s t hst r
    obtain ⟨hanswers, hlast⟩ := ih hnext
    refine ⟨?_, hlast⟩
    simp only [serveAll, hanswer, hanswers]

/-- **What every request preserves, requests made one after the other
preserve.** -/
theorem serveAll_preserves {P : S → Prop} (h : ∀ s r, P s → P (serve s r).2) {s : S} (hs : P s)
    (rs : List R) : P (serveAll serve s rs).2 := by
  induction rs generalizing s with
  | nil => exact hs
  | cons r rs ih => exact ih (h s r hs)

end ScalarLang
