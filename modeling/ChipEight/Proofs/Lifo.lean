/-
The call stack against a plain list. `Lifo.serve` is a list that is read and written at its head and
refuses what does not fit; `answers` puts a sequence of requests to a stack of either kind. The two give
the same replies to every sequence, and stay related by `CallStack.Holds`, which determines the slots:
so a pop takes back a push exactly, and so does a balanced sequence of both (`answers_empty_eq_lifo`).
-/
import ChipEight.Proofs.CallStack

namespace ChipEight

open Layout

/-! ## Requests -/

inductive StackRequest
  | push (address : UInt16)
  | pop
deriving DecidableEq

inductive StackReply
  | pushed
  | overflow
  | popped (address : UInt16)
  | underflow
deriving DecidableEq

/-- The replies to a sequence of requests, each put to what the one before it has left, and what is left in
the end. -/
def answers {σ : Type} (serve : σ → StackRequest → StackReply × σ) (s : σ) :
    List StackRequest → List StackReply × σ
  | [] => ([], s)
  | request :: rest =>
    let served := serve s request
    let later := answers serve served.2 rest
    (served.1 :: later.1, later.2)

/-- A list of at most sixteen addresses, the newest first. A request that is refused changes nothing. -/
def Lifo.serve (addresses : List UInt16) : StackRequest → StackReply × List UInt16
  | .push a => if addresses.length = stackSize then (.overflow, addresses) else (.pushed, a :: addresses)
  | .pop => match addresses with
    | [] => (.underflow, [])
    | a :: older => (.popped a, older)

namespace CallStack

/-- The stack with its pushes and pops, of which the flags tell the ones that are refused. -/
def serve (s : CallStack) : StackRequest → StackReply × CallStack
  | .push a =>
    let (pushed, overflow) := s.push a
    (if overflow then .overflow else .pushed, pushed)
  | .pop =>
    let (popped, a, underflow) := s.pop
    (if underflow then .underflow else .popped a, popped)

/-- A push whose flag is raised leaves the stack as it is. -/
theorem serve_push (s : CallStack) (a : UInt16) :
    s.serve (.push a) = ((s.push? a).map (StackReply.pushed, ·)).getD (.overflow, s) := by
  rcases s.push_cases a with ⟨-, hpush⟩ | ⟨hroom, hpush⟩ <;> simp only [serve, push?, hpush] <;> rfl

/-- A pop whose flag is raised leaves the stack as it is. -/
theorem serve_pop (s : CallStack) :
    s.serve .pop = (s.pop?.map fun popped => (StackReply.popped popped.1, popped.2)).getD (.underflow, s) := by
  rcases s.pop_cases with ⟨-, hpop⟩ | ⟨k, hk, -, hpop⟩ <;> simp only [serve, pop?, hpop] <;> rfl

/-! ## Refinement -/

/-- The slots in use hold the addresses, of which the first is the newest, and the free slots zero. -/
structure Holds (s : CallStack) (addresses : List UInt16) : Prop where
  toList_eq : s.toList = addresses.reverse
  tidy : s.Tidy fun _ => True

variable {s t : CallStack} {l : List UInt16}

theorem holds_empty : empty.Holds [] := ⟨rfl, tidy_empty⟩

theorem Holds.depth_eq (h : s.Holds l) : s.depth = l.length := by
  rw [← s.length_toList, h.toList_eq, List.length_reverse]

theorem Holds.unique (h : s.Holds l) (h' : t.Holds l) : s = t :=
  h.tidy.eq_of_toList h'.tidy (h.toList_eq.trans h'.toList_eq.symm)

theorem Holds.serves_push (h : s.Holds l) (a : UInt16) :
    (s.serve (.push a)).1 = (Lifo.serve l (.push a)).1 ∧
    (s.serve (.push a)).2.Holds (Lifo.serve l (.push a)).2 := by
  simp only [serve_push, Lifo.serve, ← h.depth_eq]
  cases hp : s.push? a with
  | none =>
    rw [if_pos (push?_eq_none_iff.1 hp)]
    exact ⟨rfl, h⟩
  | some u =>
    have hroom : s.depth ≠ stackSize := by
      intro hfull
      rw [push?_eq_none_iff.2 hfull] at hp
      cases hp
    rw [if_neg hroom]
    refine ⟨rfl, ?_, h.tidy.push? trivial hp⟩
    show u.toList = (a :: l).reverse
    rw [toList_push? hp, h.toList_eq, List.reverse_cons]

theorem Holds.serves_pop (h : s.Holds l) :
    (s.serve .pop).1 = (Lifo.serve l .pop).1 ∧ (s.serve .pop).2.Holds (Lifo.serve l .pop).2 := by
  simp only [serve_pop, Lifo.serve]
  cases hp : s.pop? with
  | none =>
    obtain rfl : l = [] := by
      rw [← List.length_eq_zero_iff, ← h.depth_eq, pop?_eq_none_iff.1 hp]
    exact ⟨rfl, h⟩
  | some popped =>
    obtain ⟨a, u⟩ := popped
    have hlist := toList_pop? hp
    rw [h.toList_eq] at hlist
    cases l with
    | nil => simp at hlist
    | cons b older =>
      rw [List.reverse_cons] at hlist
      obtain ⟨holder, hab⟩ := List.append_inj' hlist rfl
      cases hab
      exact ⟨rfl, holder.symm, (h.tidy.pop? hp).2⟩

theorem Holds.serves (h : s.Holds l) (request : StackRequest) :
    (s.serve request).1 = (Lifo.serve l request).1 ∧
    (s.serve request).2.Holds (Lifo.serve l request).2 := by
  cases request with
  | push a => exact h.serves_push a
  | pop => exact h.serves_pop

/-- A stack replies as the list that it holds does, to any sequence, and holds what the list becomes. -/
theorem Holds.replies (h : s.Holds l) (requests : List StackRequest) :
    (answers serve s requests).1 = (answers Lifo.serve l requests).1 ∧
    (answers serve s requests).2.Holds (answers Lifo.serve l requests).2 := by
  induction requests generalizing s l with
  | nil => exact ⟨rfl, h⟩
  | cons request rest ih =>
    obtain ⟨hreply, hserved⟩ := h.serves request
    obtain ⟨hreplies, hend⟩ := ih hserved
    refine ⟨?_, hend⟩
    simp only [answers, hreply, hreplies]

end CallStack

/-! ## Balanced sequences -/

/-- Every pop takes back a push and every push is taken back, the `height` ones from before included, and
there are never more than `room` to be taken back. -/
def Balanced (room : Nat) : Nat → List StackRequest → Prop
  | height, [] => height = 0
  | height, .push _ :: rest => height < room ∧ Balanced room (height + 1) rest
  | 0, .pop :: _ => False
  | height + 1, .pop :: rest => Balanced room height rest

/-- The list loses what is to be taken back and keeps what lies below it. -/
theorem answers_lifo_of_balanced {room : Nat} {l : List UInt16} (hroom : l.length + room ≤ stackSize)
    {requests : List StackRequest} (pending : List UInt16) (h : Balanced room pending.length requests) :
    (answers Lifo.serve (pending ++ l) requests).2 = l := by
  induction requests generalizing pending with
  | nil =>
    obtain rfl : pending = [] := List.length_eq_zero_iff.1 h
    rfl
  | cons request rest ih =>
    cases request with
    | push a =>
      obtain ⟨hlt, hrest⟩ := h
      have hfits : (pending ++ l).length ≠ stackSize := by
        rw [List.length_append]
        omega
      simp only [answers, Lifo.serve, if_neg hfits]
      exact ih (a :: pending) hrest
    | pop =>
      cases pending with
      | nil => cases h
      | cons a older => exact ih older h

namespace CallStack

theorem Holds.eq_of_balanced {s : CallStack} {l : List UInt16} (h : s.Holds l)
    {requests : List StackRequest} (hb : Balanced (stackSize - s.depth) 0 requests) :
    (answers serve s requests).2 = s := by
  have hroom : l.length + (stackSize - s.depth) ≤ stackSize := by
    have hle := s.depth_le
    rw [← h.depth_eq]
    omega
  have hl : (answers Lifo.serve l requests).2 = l :=
    answers_lifo_of_balanced hroom [] hb
  have hend := (h.replies requests).2
  rw [hl] at hend
  exact hend.unique h

/-- From the empty stack on, the replies to every sequence of pushes and pops are those of a list of
sixteen addresses, whose addresses the stack holds in the end. There a pop takes back a push, and a
balanced sequence that fits takes back itself, down to the last slot. -/
theorem answers_empty_eq_lifo (requests : List StackRequest) :
    let s := (answers serve empty requests).2
    let l := (answers Lifo.serve [] requests).2
    (answers serve empty requests).1 = (answers Lifo.serve [] requests).1 ∧
    s.toList = l.reverse ∧ s.depth = l.length ∧
    (∀ a t, s.push? a = some t → t.pop? = some (a, s)) ∧
    ∀ more, Balanced (stackSize - s.depth) 0 more → (answers serve s more).2 = s := by
  intro s l
  obtain ⟨hreplies, hholds⟩ := holds_empty.replies requests
  refine ⟨hreplies, hholds.toList_eq, hholds.depth_eq, ?_, ?_⟩
  · intro a t hp
    exact hholds.tidy.pop?_of_push? hp
  · intro more hb
    exact hholds.eq_of_balanced hb

/-- Two nested calls and their returns, on the stack that a refused pop and a push have left. -/
theorem answers_empty_balanced :
    let s := (answers serve empty [.pop, .push 0x202]).2
    s.depth = 1 ∧ Balanced (stackSize - s.depth) 0 [.push 0x204, .push 0x206, .pop, .pop] ∧
    (answers serve s [.push 0x204, .push 0x206, .pop, .pop]).2 = s := by
  intro s
  obtain ⟨-, -, hdepth, -, hrestored⟩ := answers_empty_eq_lifo [.pop, .push 0x202]
  have hb : Balanced (stackSize - s.depth) 0 [.push 0x204, .push 0x206, .pop, .pop] := by
    rw [hdepth]
    simp [Balanced, answers, Lifo.serve]
  exact ⟨hdepth, hb, hrestored _ hb⟩

end CallStack

end ChipEight
