namespace ApiContract

variable {ε α β : Type}

-- The function may use that its argument is an element.
def traverseMem : (xs : List α) → ((x : α) → x ∈ xs → Except ε β) → Except ε (List β)
  | [], _ => .ok []
  | x :: rest, f =>
    match f x List.mem_cons_self with
    | .error e => .error e
    | .ok y => match traverseMem rest fun z member => f z (List.mem_cons_of_mem x member) with
      | .error e => .error e
      | .ok ys => .ok (y :: ys)

def traverse (f : α → Except ε β) : List α → Except ε (List β)
  | [] => .ok []
  | x :: rest =>
    match f x with
    | .error e => .error e
    | .ok y => match traverse f rest with
      | .error e => .error e
      | .ok ys => .ok (y :: ys)

theorem traverseMem_eq (f : α → Except ε β) (xs : List α) :
    (traverseMem xs fun x _ => f x) = traverse f xs := by
  induction xs with
  | nil => rfl
  | cons x rest ih => simp only [traverseMem, traverse, ih]

end ApiContract
