/-
Subroutines over whole runs. A call puts the address behind it on top of the stack, and as long as the stack
does not get lower than that, whatever is executed leaves the addresses up to it in place: the invariant of
such a run is that they are a prefix of the addresses on the stack (`prefix_performAll`). So the return that
takes the stack below that height goes back to the caller and gives it back the stack of the call, which
`return_to_caller` states down to the last slot.
-/
import ChipEight.Proofs.History
import Mathlib.Data.List.Infix

namespace ChipEight

open Layout

variable {l : List UInt16}

/-! ## Addresses that stay in place -/

namespace CallStack

variable {s t u : CallStack} {a b : UInt16}

theorem prefix_of_push? (h : l <+: s.toList) (hp : s.push? a = some t) : l <+: t.toList := by
  rw [toList_push? hp]
  exact h.trans (List.prefix_append _ _)

theorem prefix_of_pop? (h : l <+: s.toList) (hp : s.pop? = some (a, t)) (hd : l.length ≤ t.depth) :
    l <+: t.toList := by
  have hback : t.toList <+: s.toList := by
    rw [toList_pop? hp]
    exact List.prefix_append _ _
  apply List.prefix_of_prefix_length_le h hback
  rw [length_toList]
  exact hd

/-- A pop at the height of an address that has stayed in place finds this address, and nothing above what
lay below it. -/
theorem pop?_of_prefix (h : s.toList ++ [a] <+: t.toList) (hdepth : t.depth = s.depth + 1)
    (hp : t.pop? = some (b, u)) : b = a ∧ u.toList = s.toList := by
  have hsame : s.toList ++ [a] = t.toList := by
    apply h.eq_of_length
    rw [List.length_append, length_toList, length_toList, hdepth, List.length_singleton]
  rw [toList_pop? hp] at hsame
  obtain ⟨hbelow, htop⟩ := List.append_inj' hsame rfl
  exact ⟨(List.singleton_inj.1 htop).symm, hbelow.symm⟩

end CallStack

namespace State

variable {s t : State} {w : Nat}

theorem prefix_stackAfter {i : Instruction} (h : l <+: s.stack.toList)
    (hd : l.length ≤ (s.stackAfter i).depth) : l <+: (s.stackAfter i).toList := by
  cases i with
  | call target =>
    unfold stackAfter
    cases hp : s.stack.push? s.pc with
    | none => exact h
    | some stack => exact CallStack.prefix_of_push? h hp
  | ret =>
    unfold stackAfter at hd ⊢
    cases hp : s.stack.pop? with
    | none => exact h
    | some popped =>
      rw [hp] at hd
      exact CallStack.prefix_of_pop? h hp hd
  | _ => exact h

theorem prefix_step (h : l <+: s.stack.toList) (hd : l.length ≤ s.step.stack.depth) :
    l <+: s.step.stack.toList := by
  rcases s.step_cases with ⟨-, -, hstep⟩ | ⟨-, hstep⟩
  · rw [hstep, execute_stack] at hd ⊢
    exact prefix_stackAfter (s := s.fetched) h hd
  · rw [hstep]
    exact h

theorem prefix_perform {op : Operation} (hop : op.Plays) (h : l <+: s.stack.toList)
    (hd : l.length ≤ (s.perform op).stack.depth) : l <+: (s.perform op).stack.toList := by
  cases op with
  | step => exact prefix_step h hd
  | tick | keys => exact h
  | load | run | reset => exact hop.elim

/-- The addresses stay in place while the stack never gets lower than they reach. -/
theorem prefix_performAll {ops : List Operation} (hops : ∀ op ∈ ops, op.Plays) (h : l <+: s.stack.toList)
    (hdeep : ∀ before, before <+: ops → l.length ≤ (s.performAll before).stack.depth) :
    l <+: (s.performAll ops).stack.toList := by
  induction ops generalizing s with
  | nil => exact h
  | cons op ops ih =>
    have hop : op.Plays := hops op List.mem_cons_self
    have hfirst : l.length ≤ (s.perform op).stack.depth := hdeep [op] (List.prefix_append [op] ops)
    apply ih
    · intro o ho
      exact hops o (List.mem_cons_of_mem op ho)
    · exact prefix_perform hop h hfirst
    · intro before hb
      exact hdeep (op :: before) (List.cons_prefix_cons.2 ⟨rfl, hb⟩)

/-! ## Calls and returns -/

/-- A call that succeeds has pushed the address behind it. -/
theorem push?_of_call (h : s.dispatched? = some w) (hw : w / 4096 = 0x2)
    (hok : s.step.status = Status.ok.code) : s.stack.push? (s.pc + 2) = some s.step.stack := by
  have hcall : (Instruction.call (targetOf w)).HasWord w := ⟨hw, rfl⟩
  have hroom : s.stack.depth ≠ stackSize := by
    intro hfull
    have hover : s.fetched.reported? (.call (targetOf w)) = some .stackOverflow := if_pos hfull
    rw [step_status, outcome_of_dispatched h hcall, hover] at hok
    cases Status.code_inj hok
  have hstep : s.step = s.fetched.call (targetOf w) := step_of_dispatched h hcall (if_neg hroom)
  rcases s.fetched.call_cases (targetOf w) with ⟨hfull, -⟩ | ⟨-, stack, hp, he⟩
  · exact absurd hfull hroom
  · rw [hstep, he]
    exact hp

/-- A return on a stack that is not empty succeeds, and goes on at the address that it has popped. -/
theorem pop?_of_ret (h : s.dispatched? = some 0x00EE) (hd : 0 < s.stack.depth) :
    s.step.status = Status.ok.code ∧ s.stack.pop? = some (s.step.pc, s.step.stack) := by
  have hret : Instruction.ret.HasWord 0x00EE := rfl
  have hquiet : s.fetched.reported? .ret = none := if_neg (Nat.ne_of_gt hd)
  have hstep : s.step = s.fetched.ret := step_of_dispatched h hret hquiet
  refine ⟨status_of_dispatched h hret hquiet, ?_⟩
  rcases s.fetched.ret_cases with ⟨hempty, -⟩ | ⟨-, address, stack, hp, he⟩
  · exact absurd hempty (Nat.ne_of_gt hd)
  · rw [hstep, he]
    exact hp

/-- After a call that succeeds, and whatever steps, ticks and keys come then while the address that it has
saved stays on the stack, a return that takes this address off ends OK behind the call, with the stack as it
was before the call. -/
theorem return_to_caller (hs : s.Reachable) (hcall : s.dispatched? = some w) (hw : w / 4096 = 0x2)
    (hok : s.step.status = Status.ok.code) {ops : List Operation} (hops : ∀ op ∈ ops, op.Plays)
    (hdeep : ∀ before, before <+: ops →
      s.stack.depth + 1 ≤ (s.step.performAll before).stack.depth)
    (ht : s.step.performAll ops = t) (hdepth : t.stack.depth = s.stack.depth + 1)
    (hret : t.dispatched? = some 0x00EE) :
    t.step.status = Status.ok.code ∧ t.step.pc.toNat = s.pc.toNat + 2 ∧ t.step.stack = s.stack := by
  have hsaved : s.step.stack.toList = s.stack.toList ++ [s.pc + 2] :=
    CallStack.toList_push? (push?_of_call hcall hw hok)
  have hlen : (s.stack.toList ++ [s.pc + 2]).length = s.stack.depth + 1 := by
    rw [List.length_append, CallStack.length_toList, List.length_singleton]
  have hprefix : s.stack.toList ++ [s.pc + 2] <+: t.stack.toList := by
    rw [← ht]
    apply prefix_performAll hops
    · simp only [hsaved, List.prefix_refl]
    · rw [hlen]
      exact hdeep
  obtain ⟨hstatus, hpop⟩ := pop?_of_ret hret (by omega)
  obtain ⟨hpc, hstack⟩ := CallStack.pop?_of_prefix hprefix hdepth hpop
  have hend : t.step.Reachable := by
    rw [← ht]
    exact ((hs.perform .step).performAll ops).perform .step
  refine ⟨hstatus, ?_, hend.wf.stack.eq_of_toList hs.wf.stack hstack⟩
  rw [hpc, toNat_add_two hs.wf.pc_le]

/-- The words 2204, 1202, 2208, 00EE and 00EE: a subroutine that calls another one. -/
def nestedCalls : State :=
  (initial ⟨0, 0⟩ {}).perform (.load [0x22, 0x04, 0x12, 0x02, 0x22, 0x08, 0x00, 0xEE, 0x00, 0xEE])

/-- The inner call and its return, with a tick and keys held down in between. -/
def innerCall : List Operation := [.step, .tick, .keys (.replicate keyCount true), .step]

theorem nestedCalls_return :
    nestedCalls.Reachable ∧ nestedCalls.dispatched? = some 0x2204 ∧ 0x2204 / 4096 = 0x2 ∧
    nestedCalls.step.status = Status.ok.code ∧ (∀ op ∈ innerCall, op.Plays) ∧
    (∀ before, before <+: innerCall →
      nestedCalls.stack.depth + 1 ≤ (nestedCalls.step.performAll before).stack.depth) ∧
    (nestedCalls.step.performAll innerCall).stack.depth = nestedCalls.stack.depth + 1 ∧
    (nestedCalls.step.performAll innerCall).dispatched? = some 0x00EE ∧
    (nestedCalls.step.performAll innerCall).step.status = Status.ok.code ∧
    (nestedCalls.step.performAll innerCall).step.pc.toNat = nestedCalls.pc.toNat + 2 ∧
    (nestedCalls.step.performAll innerCall).step.stack = nestedCalls.stack := by
  have hs : nestedCalls.Reachable := .perform (.load _) (.initial _ _)
  have hops : ∀ op ∈ innerCall, op.Plays := by simp [innerCall, Operation.Plays]
  have hcomputed : nestedCalls.dispatched? = some 0x2204 ∧
      nestedCalls.step.status = Status.ok.code ∧
      (∀ before ∈ innerCall.inits,
        nestedCalls.stack.depth + 1 ≤ (nestedCalls.step.performAll before).stack.depth) ∧
      (nestedCalls.step.performAll innerCall).stack.depth = nestedCalls.stack.depth + 1 ∧
      (nestedCalls.step.performAll innerCall).dispatched? = some 0x00EE := by
    decide +kernel
  obtain ⟨hcall, hok, hinits, hdepth, hret⟩ := hcomputed
  have hdeep : ∀ before, before <+: innerCall →
      nestedCalls.stack.depth + 1 ≤ (nestedCalls.step.performAll before).stack.depth := by
    intro before hb
    exact hinits before ((List.mem_inits _ _).2 hb)
  exact ⟨hs, hcall, rfl, hok, hops, hdeep, hdepth, hret,
    return_to_caller hs hcall rfl hok hops hdeep rfl hdepth hret⟩

end State

end ChipEight
