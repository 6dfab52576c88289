/-
# Stacks of program counters

What decides how long a run can be is a stack of counters alone: the current frame's
program counter over the points where the suspended callers resume.  `Advance` is what a
step does to it.  Two facts follow, both about any sequence of advances.

A program of `size` instructions that never has more than `depth` counters stacked makes
at most `workload size depth` advances from a given stack (`length_le_workload`): each
instruction that a counter still has before it costs one advance, and everything that the
counters above it can cost in the meantime.

A counter only moves up while it stays on the stack, whatever is stacked on it in between
(`le_of_isChain`).
-/

import Mathlib.Algebra.Ring.GeomSum
import Mathlib.Data.List.Chain

namespace WindowVM

/-- What a step does to the counters of the live frames. -/
inductive Advance : List Nat → List Nat → Prop
  /-- The current frame goes on with its next instruction. -/
  | next {pc : Nat} {rest : List Nat} : Advance (pc :: rest) ((pc + 1) :: rest)
  /-- A callee starts at `target`, and its caller will resume after the call. -/
  | enter {pc target : Nat} {rest : List Nat} : Advance (pc :: rest) (target :: (pc + 1) :: rest)
  /-- The current frame returns to its caller. -/
  | leave {pc resume : Nat} {rest : List Nat} : Advance (pc :: resume :: rest) (resume :: rest)

/-- The current counter is at an instruction. -/
def Ready (size : Nat) (pcs : List Nat) : Prop := ∃ pc rest, pcs = pc :: rest ∧ pc < size

/-- What a stack of counters can still cost: each instruction before a counter costs one
advance and a full program at each of the depths above it. -/
def workload (size depth : Nat) : List Nat → Nat
  | [] => 0
  | pc :: rest =>
    (size - pc) * ∑ i ∈ Finset.range (depth - rest.length), size ^ i + workload size depth rest

/-- The cost of an instruction, with the depths above it counted out. -/
theorem cost_succ (size k : Nat) :
    ∑ i ∈ Finset.range (k + 1), size ^ i = size * ∑ i ∈ Finset.range k, size ^ i + 1 :=
  geom_sum_succ

theorem workload_pos {size depth : Nat} {pcs : List Nat} (hready : Ready size pcs)
    (hdepth : pcs.length ≤ depth) : 0 < workload size depth pcs := by
  obtain ⟨pc, rest, rfl, hpc⟩ := hready
  obtain ⟨k, hk⟩ : ∃ k, depth - rest.length = k + 1 :=
    Nat.exists_eq_succ_of_ne_zero (by simp only [List.length_cons] at hdepth; omega)
  rw [workload, hk, cost_succ]
  have hleft : 0 < size - pc := by omega
  exact Nat.add_pos_left (Nat.mul_pos hleft (Nat.succ_pos _)) _

/-- **Each advance costs one.** -/
theorem workload_lt_of_advance {size depth : Nat} {pcs next : List Nat} (h : Advance pcs next)
    (hready : Ready size pcs) (hpcs : pcs.length ≤ depth) (hnext : next.length ≤ depth) :
    workload size depth next < workload size depth pcs := by
  obtain ⟨_, _, heq, hpc⟩ := hready
  cases h with
  | @next pc rest =>
    obtain ⟨rfl, rfl⟩ := List.cons.inj heq
    obtain ⟨k, hk⟩ : ∃ k, depth - rest.length = k + 1 :=
      Nat.exists_eq_succ_of_ne_zero (by simp only [List.length_cons] at hpcs; omega)
    have hleft : size - pc = size - (pc + 1) + 1 := by omega
    simp only [workload, hk, cost_succ, hleft, Nat.add_mul, Nat.one_mul]
    omega
  | @enter pc target rest =>
    obtain ⟨rfl, rfl⟩ := List.cons.inj heq
    obtain ⟨k, hk⟩ : ∃ k, depth - rest.length = k + 1 :=
      Nat.exists_eq_succ_of_ne_zero (by simp only [List.length_cons] at hpcs; omega)
    have hk' : depth - (rest.length + 1) = k := by omega
    have hleft : size - pc = size - (pc + 1) + 1 := by omega
    have hcallee : (size - target) * ∑ i ∈ Finset.range k, size ^ i ≤
        size * ∑ i ∈ Finset.range k, size ^ i := Nat.mul_le_mul_right _ (Nat.sub_le ..)
    simp only [workload, List.length_cons, hk, hk', cost_succ, hleft, Nat.add_mul, Nat.one_mul]
    omega
  | @leave pc resume rest =>
    obtain ⟨rfl, rfl⟩ := List.cons.inj heq
    have hpos : 0 < workload size depth (pc :: resume :: rest) -
        workload size depth (resume :: rest) := by
      obtain ⟨k, hk⟩ : ∃ k, depth - (resume :: rest).length = k + 1 :=
        Nat.exists_eq_succ_of_ne_zero (by simp only [List.length_cons] at hpcs ⊢; omega)
      have hleft : 0 < size - pc := by omega
      rw [workload, hk, cost_succ, Nat.add_sub_cancel]
      exact Nat.mul_pos hleft (Nat.succ_pos _)
    omega

/-- **The number of advances** is bounded by the workload of the first stack. -/
theorem length_le_workload {size depth : Nat} {pcs : List Nat} {later : List (List Nat)}
    (hchain : (pcs :: later).IsChain Advance) (hready : ∀ s ∈ pcs :: later, Ready size s)
    (hdepth : ∀ s ∈ pcs :: later, s.length ≤ depth) :
    (pcs :: later).length ≤ workload size depth pcs := by
  induction later generalizing pcs with
  | nil =>
    exact workload_pos (hready pcs (List.mem_singleton_self _))
      (hdepth pcs (List.mem_singleton_self _))
  | cons next later ih =>
    obtain ⟨hadvance, hchain⟩ := List.isChain_cons_cons.1 hchain
    have hlater := ih hchain (fun s hs => hready s (List.mem_cons_of_mem _ hs))
      (fun s hs => hdepth s (List.mem_cons_of_mem _ hs))
    have hlt := workload_lt_of_advance hadvance (hready pcs (by simp)) (hdepth pcs (by simp))
      (hdepth next (by simp))
    simp only [List.length_cons] at hlater ⊢
    omega

/-- A single counter costs at most a full program at each depth. -/
theorem workload_singleton_le (size depth pc : Nat) :
    workload size depth [pc] ≤ ∑ i ∈ Finset.range depth, size ^ (i + 1) := by
  have hsum : ∑ i ∈ Finset.range depth, size ^ (i + 1) =
      size * ∑ i ∈ Finset.range depth, size ^ i := by
    rw [Finset.mul_sum]
    exact Finset.sum_congr rfl fun i _ => Nat.pow_succ'
  rw [hsum]
  exact Nat.mul_le_mul_right _ (Nat.sub_le ..)

/-- A counter that stays on the stack does not move back, and moves up if it was the
current one. -/
theorem Advance.keeps {above rest next : List Nat} {pc : Nat}
    (h : Advance (above ++ pc :: rest) next) (hdeep : rest.length < next.length) :
    ∃ above' pc', next = above' ++ pc' :: rest ∧ pc ≤ pc' ∧ (above = [] → pc < pc') := by
  cases above with
  | nil =>
    cases h with
    | next => exact ⟨[], pc + 1, rfl, Nat.le_succ pc, fun _ => Nat.lt_succ_self pc⟩
    | enter => exact ⟨[_], pc + 1, rfl, Nat.le_succ pc, fun _ => Nat.lt_succ_self pc⟩
    | leave => exact absurd hdeep (Nat.lt_irrefl _)
  | cons q above =>
    rw [List.cons_append] at h
    generalize hbelow : above ++ pc :: rest = below at h
    cases h with
    | next => exact ⟨(q + 1) :: above, pc, by rw [← hbelow]; rfl, Nat.le_refl _, by simp⟩
    | enter => exact ⟨_ :: (q + 1) :: above, pc, by rw [← hbelow]; rfl, Nat.le_refl _, by simp⟩
    | leave => exact ⟨above, pc, hbelow.symm, Nat.le_refl _, by simp⟩

/-- **A counter that stays on the stack does not move back,** in any number of advances,
and it has moved up if it was the current one. -/
theorem le_of_isChain {above rest last : List Nat} {pc pc' : Nat} {between : List (List Nat)}
    (hchain : (between ++ [pc' :: last]).IsChain Advance)
    (hfirst : (between ++ [pc' :: last]).head? = some (above ++ pc :: rest))
    (hlast : last.length = rest.length) (hdeep : ∀ s ∈ between, rest.length < s.length) :
    pc ≤ pc' ∧ (above = [] → between ≠ [] → pc < pc') := by
  induction between generalizing above pc with
  | nil =>
    have hstack := Option.some.inj hfirst
    refine ⟨?_, fun _ hne => absurd rfl hne⟩
    cases above with
    | nil => exact Nat.le_of_eq (List.cons.inj hstack).1.symm
    | cons q above =>
      have hlen := congrArg List.length hstack
      simp only [List.cons_append, List.length_cons, List.length_append] at hlen
      omega
  | cons first between ih =>
    obtain rfl := Option.some.inj hfirst
    obtain ⟨next, later, hlater⟩ : ∃ next later, between ++ [pc' :: last] = next :: later :=
      List.exists_cons_of_ne_nil (by simp)
    rw [List.cons_append, hlater] at hchain
    obtain ⟨hadvance, hchain⟩ := List.isChain_cons_cons.1 hchain
    -- The next stack is as deep as the rest: it is one of those in between, or the last.
    have hnext : rest.length < next.length := by
      have hmem : next ∈ between ++ [pc' :: last] := by rw [hlater]; exact List.mem_cons_self
      rcases List.mem_append.1 hmem with hmem | hmem
      · exact hdeep next (List.mem_cons_of_mem _ hmem)
      · obtain rfl := List.mem_singleton.1 hmem
        simp only [List.length_cons]
        omega
    obtain ⟨above', pc'', rfl, hle, hlt⟩ := hadvance.keeps hnext
    obtain ⟨hlater, -⟩ := ih (by rwa [hlater]) (by rw [hlater]; rfl)
      fun s hs => hdeep s (List.mem_cons_of_mem _ hs)
    exact ⟨Nat.le_trans hle hlater, fun habove _ => Nat.lt_of_lt_of_le (hlt habove) hlater⟩

end WindowVM
