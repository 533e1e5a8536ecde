import OrbitImage.Proofs.Equation.Expression
/-!
Programs are the listings of the expression trees that keep at most 64 operands pending. Counting
operands finds out whether a tree fits, and a run on the fixed slots leaves its value and nothing
else.
-/
namespace OrbitImage

/-! ### The slots in use -/

namespace Stack

/-- The values in the slots in use, the lowest first. -/
def held (s : Stack) : List UInt32 :=
  s.slots.toList.take s.size

@[simp] theorem length_held (s : Stack) : s.held.length = s.size := by
  have := s.size_le
  simp [held]
  omega

@[simp] theorem held_empty : empty.held = [] := rfl

/-- The first values of the slots, of which the last has just been written. -/
theorem take_succ_set {slots : List UInt32} {n : Nat} (v : UInt32) (h : n < slots.length) :
    (slots.set n v).take (n + 1) = slots.take n ++ [v] := by
  rw [List.take_add_one, List.take_set_of_le (Nat.le_refl n), List.getElem?_set_self h]
  rfl

theorem slot_of_held {s : Stack} (vs us : List UInt32) {v : UInt32} {i : Nat}
    (h : s.held = vs ++ v :: us) (hi : i = vs.length) (hs : i < 64) : s.slots[i] = v := by
  have hv : s.held[i]? = some v := by
    subst hi
    rw [h]
    simp
  obtain ⟨hlt, hget⟩ := List.getElem?_eq_some_iff.mp hv
  simpa [held] using hget

theorem take_of_held {s : Stack} {vs us : List UInt32} (h : s.held = vs ++ us) :
    s.slots.toList.take vs.length = vs := by
  have hle : vs.length ≤ s.size := by
    rw [← length_held, h]
    simp
  calc s.slots.toList.take vs.length
      = s.held.take vs.length := by rw [held, List.take_take, Nat.min_eq_left hle]
    _ = vs := by rw [h, List.take_left]

theorem held_push? {s : Stack} (v : UInt32) (h : s.size < 64) :
    ∃ t, s.push? v = some t ∧ t.held = s.held ++ [v] := by
  refine ⟨⟨s.slots.set s.size v, s.size + 1, h⟩, dif_pos h, ?_⟩
  simp only [held, Vector.toList_set]
  exact take_succ_set v (by simpa using h)

theorem held_operate?_complement {s : Stack} {vs : List UInt32} {a : UInt32}
    (h : s.held = vs ++ [a]) :
    ∃ t, s.operate? .complement = some t ∧ t.held = vs ++ [~~~a] := by
  have hsize : s.size = vs.length + 1 := by
    rw [← length_held, h]
    simp
  have hle := s.size_le
  have ha : s.slots[s.size - 1] = a := slot_of_held vs [] h (by omega) (by omega)
  obtain ⟨slots, size, le⟩ := s
  refine ⟨⟨slots.set (size - 1) (~~~a), size, le⟩, ?_, ?_⟩
  · simp only at hsize ha
    simp only [operate?, ha]
    exact dif_pos (by omega)
  · simp only at hsize
    simp only [held, Vector.toList_set, hsize, Nat.add_sub_cancel]
    rw [take_succ_set _ (by simp; omega), take_of_held h]

theorem held_operate?_binary {s : Stack} {vs : List UInt32} {a b : UInt32} (op : BinaryOp)
    (h : s.held = vs ++ [a, b]) :
    ∃ t, s.operate? (.binary op) = some t ∧ t.held = vs ++ [op.apply a b] := by
  have hsize : s.size = vs.length + 2 := by
    rw [← length_held, h]
    simp
  have hle := s.size_le
  have ha : s.slots[s.size - 2] = a := slot_of_held vs [b] h (by omega) (by omega)
  have hb : s.slots[s.size - 1] = b :=
    slot_of_held (vs ++ [a]) [] (by simpa using h) (by simp; omega) (by omega)
  obtain ⟨slots, size, le⟩ := s
  refine ⟨⟨slots.set (size - 2) (op.apply a b), size - 1, by omega⟩, ?_, ?_⟩
  · simp only at hsize ha hb
    simp only [operate?, ha, hb]
    exact dif_pos (by omega)
  · simp only at hsize
    simp only [held, Vector.toList_set, hsize, Nat.add_sub_cancel, Nat.add_succ_sub_one]
    rw [take_succ_set _ (by simp; omega), take_of_held h]

theorem bottom_of_held {s : Stack} {v : UInt32} (h : s.held = [v]) : s.bottom = v :=
  slot_of_held [] [] h rfl (by decide)

/-- A run of a listing pushes the value of its tree, if the tree's pending operands fit. -/
theorem run_postorder (x : UInt32) (e : Expr) (ts : List Token) {s : Stack}
    (h : s.size + e.pending ≤ 64) :
    ∃ t : Stack, s.run x (e.postorder ++ ts) = t.run x ts ∧ t.held = s.held ++ [e.value x] := by
  -- By induction on the tree, at every stack: what is held below stays, also while it is the left
  -- operand that waits there for the right one.
  induction e generalizing ts s with
  | number n =>
      obtain ⟨t, ht, held⟩ := held_push? n (s := s) h
      exact ⟨t, by simp [Expr.postorder, run, ht], held⟩
  | x =>
      obtain ⟨t, ht, held⟩ := held_push? x (s := s) h
      exact ⟨t, by simp [Expr.postorder, run, ht], held⟩
  | complement e ih =>
      obtain ⟨t, ht, held⟩ := ih (.operator .complement :: ts) h
      obtain ⟨u, hu, held'⟩ := held_operate?_complement held
      refine ⟨u, ?_, held'⟩
      simp only [Expr.postorder, List.append_assoc, List.singleton_append]
      rw [ht, run, hu, Option.bind_some]
  | binary op l r ihl ihr =>
      simp only [Expr.pending] at h
      obtain ⟨t, ht, held⟩ := ihl (r.postorder ++ .operator (.binary op) :: ts) (s := s) (by omega)
      have hsize : t.size = s.size + 1 := by
        rw [← length_held, held]
        simp
      obtain ⟨u, hu, held'⟩ := ihr (.operator (.binary op) :: ts) (s := t) (by omega)
      rw [held, List.append_assoc] at held'
      obtain ⟨v, hv, held''⟩ := held_operate?_binary op held'
      refine ⟨v, ?_, held''⟩
      simp only [Expr.postorder, List.append_assoc, List.singleton_append]
      rw [ht, hu, run, hv, Option.bind_some]

/-- From the empty stack nothing but the value of the tree is left. -/
theorem run_empty_postorder (x : UInt32) {e : Expr} (h : e.pending ≤ 64) :
    ∃ s, empty.run x e.postorder = some s ∧ s.held = [e.value x] := by
  obtain ⟨s, hs, held⟩ := run_postorder x e [] (s := empty) (by simpa [empty] using h)
  exact ⟨s, by simpa [run] using hs, by simpa using held⟩

end Stack

/-! ### Counting pending operands -/

namespace Token

theorem pendingAfter_postorder (e : Expr) (ts : List Token) (n : Nat) :
    pendingAfter (e.postorder ++ ts) n =
      if n + e.pending ≤ 64 then pendingAfter ts (n + 1) else .error .tooDeep := by
  induction e generalizing ts n with
  | number k => rfl
  | x => rfl
  | complement e ih =>
      simp only [Expr.postorder, List.append_assoc]
      rw [ih, List.singleton_append, pendingAfter, if_pos (Nat.le_add_left 1 n)]
      rfl
  | binary op l r ihl ihr =>
      simp only [Expr.postorder, List.append_assoc]
      rw [ihl, ihr]
      simp only [List.singleton_append, pendingAfter, Expr.pending]
      grind

/-- Tokens that leave a number of operands pending leave as many trees. -/
theorem rebuild?_of_pendingAfter {ts : List Token} (es : List Expr) {n : Nat}
    (h : pendingAfter ts es.length = .ok n) :
    ∃ fs, Expr.rebuild? ts es = some fs ∧ fs.length = n := by
  -- The counter and the list of trees move in step, so where one has too few the other has.
  induction ts generalizing es with
  | nil => exact ⟨es, rfl, by simpa [pendingAfter] using h⟩
  | cons t ts ih =>
      cases t with
      | number k =>
          simp only [pendingAfter] at h
          split at h
          · exact ih (.number k :: es) h
          · cases h
      | x =>
          simp only [pendingAfter] at h
          split at h
          · exact ih (.x :: es) h
          · cases h
      | leftParen => cases h
      | rightParen => cases h
      | operator op =>
          cases op with
          | complement =>
              match es with
              | [] => cases h
              | e :: es => exact ih (.complement e :: es) (by simpa [pendingAfter] using h)
          | binary op =>
              match es with
              | [] => cases h
              | [_] => cases h
              | r :: l :: es => exact ih (.binary op l r :: es) (by simpa [pendingAfter] using h)

theorem exists_postorder {ts : List Token} (h : pendingAfter ts 0 = .ok 1) :
    ∃ e : Expr, e.postorder = ts ∧ e.pending ≤ 64 := by
  obtain ⟨es, hes, hlen⟩ := rebuild?_of_pendingAfter [] h
  obtain ⟨e, rfl⟩ := List.length_eq_one_iff.mp hlen
  have hts : e.postorder = ts := by simpa [Expr.listing] using Expr.listing_rebuild? hes
  have hcount := pendingAfter_postorder e [] 0
  rw [List.append_nil, hts, h, Nat.zero_add] at hcount
  split at hcount
  · exact ⟨e, hts, by assumption⟩
  · cases hcount

end Token

/-! ### Programs -/

namespace Program

theorem ofPostfix_eq_ok_iff {ts : List Token} {p : Program} :
    ofPostfix ts = .ok p ↔ p.tokens = ts := by
  constructor
  · intro h
    unfold ofPostfix at h
    split at h <;> cases h
    rfl
  · rintro rfl
    have hp := p.single
    unfold ofPostfix
    split <;> simp_all

theorem ofPostfix_eq_error {ts : List Token} {fault : EquationFault}
    (h : Token.pendingAfter ts 0 = .error fault) : ofPostfix ts = .error fault := by
  unfold ofPostfix
  split <;> simp_all

/-- The program of a tree that fits. -/
def ofExpr (e : Expr) (h : e.pending ≤ 64) : Program :=
  ⟨e.postorder, by
    have := Token.pendingAfter_postorder e [] 0
    rw [Nat.zero_add, if_pos h] at this
    simpa [Token.pendingAfter] using this⟩

theorem eval_of_postorder {p : Program} {e : Expr} (hp : e.postorder = p.tokens)
    (h : e.pending ≤ 64) (x : UInt32) : p.eval x = e.value x := by
  obtain ⟨s, hs, held⟩ := Stack.run_empty_postorder x h
  rw [eval, ← hp, hs]
  exact Stack.bottom_of_held held

/-- A list of tokens is accepted exactly if it lists a tree that fits. The tree is the only one, and
at every value of the variable the run stays within the slots in use, leaves one value and gives
the tree's. -/
theorem ofPostfix_accepts_listings (ts : List Token) :
    ((∃ p, ofPostfix ts = .ok p) ↔ ∃ e : Expr, e.postorder = ts ∧ e.pending ≤ 64) ∧
      ∀ p, ofPostfix ts = .ok p → p.tokens = ts ∧
        ∃ e : Expr, e.postorder = ts ∧ (∀ f : Expr, f.postorder = ts → f = e) ∧
          e.pending ≤ 64 ∧ ∀ x, p.eval x = e.value x ∧
            ∃ s, Stack.empty.run x ts = some s ∧ s.held = [e.value x] := by
  constructor
  · constructor
    · rintro ⟨p, hp⟩
      rw [ofPostfix_eq_ok_iff] at hp
      exact Token.exists_postorder (hp ▸ p.single)
    · rintro ⟨e, rfl, h⟩
      exact ⟨ofExpr e h, ofPostfix_eq_ok_iff.mpr rfl⟩
  · intro p hp
    rw [ofPostfix_eq_ok_iff] at hp
    obtain ⟨e, rfl, h⟩ := Token.exists_postorder (hp ▸ p.single)
    refine ⟨hp, e, rfl, fun f hf => Expr.postorder_injective hf, h, fun x => ⟨?_, ?_⟩⟩
    · exact eval_of_postorder hp.symm h x
    · exact Stack.run_empty_postorder x h

theorem ofPostfix_accepts_shifted_sum :
    let e : Expr := .binary .xor .x (.binary .shl (.complement .x) (.number 13))
    ∃ p, ofPostfix [.x, .x, .operator .complement, .number 13, .operator (.binary .shl),
        .operator (.binary .xor)] = .ok p ∧ ∀ x, p.eval x = e.value x := by
  intro e
  have law := ofPostfix_accepts_listings e.postorder
  obtain ⟨p, hp⟩ := law.1.mpr ⟨e, rfl, by decide⟩
  obtain ⟨-, f, -, unique, -, run⟩ := law.2 p hp
  obtain rfl := unique e rfl
  exact ⟨p, hp, fun x => (run x).1⟩

end Program

end OrbitImage
