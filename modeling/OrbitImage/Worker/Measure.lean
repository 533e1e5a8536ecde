/-!
Sums over lists, by which it is seen that threads come to rest.
-/
namespace OrbitImage

variable {β : Type}

def total (f : β → Nat) : List β → Nat
  | [] => 0
  | b :: rest => f b + total f rest

theorem total_set_lt (f : β → Nat) {l : List β} {i : Nat} {b c : β} (hb : l[i]? = some b)
    (h : f c < f b) : total f (l.set i c) < total f l := by
  induction l generalizing i with
  | nil => simp at hb
  | cons d l ih =>
    cases i with
    | zero =>
      have hd : d = b := by simpa using hb
      subst hd
      simpa [total] using h
    | succ i => simpa [total] using ih (by simpa using hb)

theorem total_modify (f : β → Nat) (l : List β) (i : Nat) (g : β → β)
    (h : ∀ b, l[i]? = some b → f (g b) = f b) : total f (l.modify i g) = total f l := by
  induction l generalizing i with
  | nil => simp
  | cons d l ih =>
    cases i with
    | zero => simp [total, h d rfl]
    | succ i => simpa [total] using ih i fun b hb => h b (by simpa using hb)

end OrbitImage
