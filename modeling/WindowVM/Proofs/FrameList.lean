/-
# The call stack is a bounded list of frames

A `FrameList` is what a call stack would be without an arena: the live frames as a plain
list, the root first, and how many there may be.  The handle of a frame is its place in the
list.  A `Request` can be made to either in the same way, and `CallStack.replies_eq` says that
whatever is asked, the arena replies as the list does.  So nobody can tell which slots were
freed, in which order, and which of them was taken again.

`Holds` of the arena carries the proof: `Matches.perform` is its step, one case for each
operation.
-/

import Mathlib.Data.List.Basic
import WindowVM.Proofs.Arena

namespace WindowVM

/-- What a user can ask of a stack of frames: an operation, or a look at it. -/
inductive Request where
  | perform (op : CallStack.Op)
  | live
  | current
  | currentFrame
  deriving DecidableEq, Repr

/-- What a stack of frames replies. -/
inductive Reply where
  | performed (answer : Except Stop CallStack.Answer)
  | count (n : Nat)
  | handle (slot : Option Slot)
  | frame (f : Option Frame)

/-- A stack of frames as its users see it. -/
structure StackView (σ : Type) where
  perform : σ → CallStack.Op → Except Stop CallStack.Answer × σ
  live : σ → Nat
  current : σ → Option Slot
  currentFrame : σ → Option Frame

namespace StackView

variable {σ : Type}

/-- The reply to a request, and the stack after it. -/
def reply (v : StackView σ) (s : σ) : Request → Reply × σ
  | .perform op => (.performed (v.perform s op).1, (v.perform s op).2)
  | .live => (.count (v.live s), s)
  | .current => (.handle (v.current s), s)
  | .currentFrame => (.frame (v.currentFrame s), s)

/-- The replies to requests that are made one after another. -/
def replies (v : StackView σ) (s : σ) : List Request → List Reply
  | [] => []
  | request :: requests => (v.reply s request).1 :: v.replies (v.reply s request).2 requests

end StackView

/-- The call stack as its users see it. -/
def CallStack.view : StackView CallStack where
  perform := perform
  live := live
  current := current
  currentFrame := currentFrame?

/-- A stack of frames as a plain list, the root first. -/
structure FrameList where
  frames : List Frame
  /-- How many frames there may be. -/
  limit : Option Nat
  deriving DecidableEq, Repr

namespace FrameList

/-- The stack without frames. -/
def empty (limit : Option Nat) : FrameList := ⟨[], limit⟩

/-- The number of frames. -/
def live (s : FrameList) : Nat := s.frames.length

/-- The place of the last frame. -/
def current (s : FrameList) : Option Slot :=
  if s.frames = [] then none else some (s.frames.length - 1)

/-- Appends a frame, unless there are as many as there may be. -/
def push (s : FrameList) (f : Frame) : Except Stop CallStack.Answer × FrameList :=
  if s.limit = some s.frames.length then (.error (.exhausted (.frames s.frames.length)), s)
  else (.ok (.pushed s.frames.length), { s with frames := s.frames ++ [f] })

/-- Runs one operation. -/
def perform (s : FrameList) : CallStack.Op → Except Stop CallStack.Answer × FrameList
  | .pushRoot w => if s.frames = [] then s.push ⟨w, none⟩ else (.error (.fault .rootOverLive), s)
  | .pushCall w resumePc destination =>
    match s.current with
    | none => (.error (.fault .callerMissing), s)
    | some caller => s.push ⟨w, some { caller, resumePc, destination }⟩
  | .pop => (.ok (.frame s.frames.getLast?), { s with frames := s.frames.dropLast })
  | .unwind => (.ok (.destroyed s.frames.length), { s with frames := [] })
  | .get slot => (.ok (.frame s.frames[slot]?), s)

/-- The list as the users of a call stack see it. -/
def view : StackView FrameList where
  perform := perform
  live := live
  current := current
  currentFrame := fun s => s.frames.getLast?

/-- **A frame stays in its place** as long as the list reaches beyond it. -/
theorem getElem?_perform (s : FrameList) (op : CallStack.Op) {slot : Slot}
    (hbefore : slot < s.live) (hafter : slot < (s.perform op).2.live) :
    (s.perform op).2.frames[slot]? = s.frames[slot]? := by
  have hpush (f : Frame) : (s.push f).2.frames[slot]? = s.frames[slot]? := by
    unfold push
    split
    · rfl
    · exact List.getElem?_append_left hbefore
  cases op with
  | pushRoot w =>
    rw [perform]
    split
    · exact hpush _
    · rfl
  | pushCall w resumePc destination =>
    rw [perform]
    split
    · rfl
    · exact hpush _
  | pop =>
    show s.frames.dropLast[slot]? = s.frames[slot]?
    have hlt : slot < s.frames.length - 1 := by simpa [perform, live] using hafter
    rw [List.getElem?_dropLast, if_pos hlt]
  | unwind => exact absurd hafter (Nat.not_lt_zero slot)
  | get => rfl

end FrameList

namespace CallStack

/-- The call stack and the list have the same frames and the same limit, which is kept. -/
structure Matches (c : CallStack) (s : FrameList) : Prop where
  holds : c.Holds s.frames.reverse
  limit : c.limit = s.limit
  length_le : ∀ l ∈ s.limit, s.frames.length ≤ l

namespace Matches

variable {c : CallStack} {s : FrameList}

theorem empty (limit : Option Nat) : (CallStack.empty limit).Matches (.empty limit) :=
  ⟨.empty limit, rfl, fun l _ => Nat.zero_le l⟩

theorem live (h : c.Matches s) : c.live = s.live := by
  rw [h.holds.live, List.length_reverse, FrameList.live]

theorem current (h : c.Matches s) : c.current = s.current := by
  rw [h.holds.current, FrameList.current]
  rcases List.eq_nil_or_concat' s.frames with hs | ⟨fs, f, hs⟩
  · rw [hs]
    rfl
  · simp [hs, topSlot?]

theorem currentFrame? (h : c.Matches s) : c.currentFrame? = s.frames.getLast? := by
  rw [h.holds.currentFrame?, List.head?_reverse]

/-- A handle leads to the frame in its place. -/
theorem get? (h : c.Matches s) (slot : Slot) : c.get? slot = s.frames[slot]? := by
  by_cases hslot : slot < s.frames.length
  · rw [h.holds.get? (by simpa using hslot), List.reverse_reverse]
  · rw [h.holds.get?_of_le (by simpa using hslot), List.getElem?_eq_none (Nat.not_lt.1 hslot)]

/-- The limit is reached when there are as many frames. -/
theorem limit_any (h : c.Matches s) :
    c.limit.any (· ≤ s.frames.length) = true ↔ s.limit = some s.frames.length := by
  rw [h.limit]
  cases hl : s.limit with
  | none => simp
  | some l =>
    have hle := h.length_le l (Option.mem_def.2 hl)
    simp only [Option.any_some, decide_eq_true_eq, Option.some.injEq]
    omega

/-- A push of a frame that is linked to the current one. -/
theorem push (h : c.Matches s) {f : Frame} (hf : f.caller = s.current) :
    (perform.pushed (c.push f)).1 = (s.push f).1 ∧
      (perform.pushed (c.push f)).2.Matches (s.push f).2 := by
  have hlength : s.frames.reverse.length = s.frames.length := List.length_reverse
  by_cases hfull : s.limit = some s.frames.length
  · have hpush := h.holds.push_full (f := f) (hlength ▸ h.limit_any.2 hfull)
    rw [FrameList.push, if_pos hfull, hpush, hlength]
    exact ⟨rfl, h⟩
  · have hroom := Bool.eq_false_iff.2 fun hany => hfull (h.limit_any.1 hany)
    obtain ⟨d, hpush, hholds, hlimit⟩ := h.holds.push (f := f)
      (by rw [hf, ← h.current, h.holds.current]) (hlength ▸ hroom)
    rw [FrameList.push, if_neg hfull, hpush, hlength]
    refine ⟨rfl, ⟨?_, hlimit.trans h.limit, ?_⟩⟩
    · rw [List.reverse_append]
      exact hholds
    · intro l hl
      have hle := h.length_le l hl
      have hne : s.frames.length ≠ l := fun heq => hfull (heq ▸ Option.mem_def.1 hl)
      simp only [List.length_append, List.length_singleton]
      omega

/-- **Each operation answers as on the list,** and the frames stay those of the list. -/
theorem perform (h : c.Matches s) (op : Op) :
    (c.perform op).1 = (s.perform op).1 ∧ (c.perform op).2.Matches (s.perform op).2 := by
  cases op with
  | pushRoot w =>
    rw [CallStack.perform, FrameList.perform, pushRoot, h.current, FrameList.current]
    by_cases hs : s.frames = []
    · simp only [if_pos hs]
      exact h.push (by rw [FrameList.current, if_pos hs]; rfl)
    · simp only [if_neg hs]
      exact ⟨rfl, h⟩
  | pushCall w resumePc destination =>
    rw [CallStack.perform, FrameList.perform, pushCall, h.current]
    cases hcurrent : s.current with
    | none => exact ⟨rfl, h⟩
    | some caller => exact h.push (by rw [hcurrent]; rfl)
  | pop =>
    rw [FrameList.perform]
    rcases List.eq_nil_or_concat' s.frames with hs | ⟨fs, f, hs⟩
    · have hpop : c.pop = (.ok none, c) := by
        rw [pop, h.current, FrameList.current, if_pos hs]
      have hlast : s.frames.getLast? = none := by rw [hs, List.getLast?_nil]
      have hdrop : s.frames.dropLast = s.frames := by rw [hs, List.dropLast_nil]
      rw [CallStack.perform, hpop, hlast, hdrop]
      exact ⟨rfl, h⟩
    · have hholds : c.Holds (f :: fs.reverse) := by simpa [hs] using h.holds
      obtain ⟨d, hpop, hrest, hlimit⟩ := hholds.pop
      rw [CallStack.perform, hpop, hs, List.getLast?_concat, List.dropLast_concat]
      refine ⟨rfl, ⟨hrest, hlimit.trans h.limit, ?_⟩⟩
      intro l hl
      have hle := h.length_le l hl
      simp only [hs, List.length_append] at hle
      exact Nat.le_trans (Nat.le_add_right ..) hle
  | unwind =>
    obtain ⟨d, hunwind, hrest, hlimit⟩ := h.holds.unwind
    simp only [CallStack.perform, hunwind, List.length_reverse]
    exact ⟨rfl, ⟨hrest, hlimit.trans h.limit, fun l _ => Nat.zero_le l⟩⟩
  | get slot =>
    rw [CallStack.perform, FrameList.perform, h.get?]
    exact ⟨rfl, h⟩

/-- Each request is replied to as by the list. -/
theorem reply (h : c.Matches s) (request : Request) :
    (view.reply c request).1 = (FrameList.view.reply s request).1 ∧
      (view.reply c request).2.Matches (FrameList.view.reply s request).2 := by
  cases request with
  | perform op =>
    obtain ⟨hanswer, hmatches⟩ := h.perform op
    exact ⟨congrArg Reply.performed hanswer, hmatches⟩
  | live => exact ⟨congrArg Reply.count h.live, h⟩
  | current => exact ⟨congrArg Reply.handle h.current, h⟩
  | currentFrame => exact ⟨congrArg Reply.frame h.currentFrame?, h⟩

theorem replies (h : c.Matches s) (requests : List Request) :
    view.replies c requests = FrameList.view.replies s requests := by
  induction requests generalizing c s with
  | nil => rfl
  | cons request requests ih =>
    obtain ⟨hreply, hnext⟩ := h.reply request
    rw [StackView.replies, StackView.replies, hreply, ih hnext]

theorem performAll (h : c.Matches s) (ops : List Op) : ∃ t, (c.performAll ops).2.Matches t := by
  induction ops generalizing c s with
  | nil => exact ⟨s, h⟩
  | cons op ops ih => exact ih (h.perform op).2

/-- A frame keeps its handle through any operations that leave it live. -/
theorem get?_performAll (h : c.Matches s) {ops : List Op} {slot : Slot}
    (hlive : ∀ taken, taken <+: ops → slot < (c.performAll taken).2.live) :
    (c.performAll ops).2.get? slot = c.get? slot := by
  induction ops generalizing c s with
  | nil => rfl
  | cons op ops ih =>
    have hnext := (h.perform op).2
    have hbefore : slot < s.live := h.live ▸ hlive [] List.nil_prefix
    have hafter : slot < (s.perform op).2.live :=
      hnext.live ▸ hlive [op] (List.cons_prefix_cons.2 ⟨rfl, List.nil_prefix⟩)
    have hrest := ih hnext fun taken htaken =>
      hlive (op :: taken) (List.cons_prefix_cons.2 ⟨rfl, htaken⟩)
    rw [h.get?, ← s.getElem?_perform op hbefore hafter, ← hnext.get?]
    exact hrest

end Matches

/-- **The call stack replies as a bounded list of frames does,** to every sequence of
operations and looks at it, whatever the limit.  So a live frame keeps its handle and its
contents: after any operations, and any more that at no time leave so few frames live that
it is not among them, the handle leads to the same frame. -/
theorem replies_eq (limit : Option Nat) :
    (∀ requests, view.replies (empty limit) requests =
      FrameList.view.replies (.empty limit) requests) ∧
    ∀ ops more slot,
      (∀ taken, taken <+: more →
        slot < (((empty limit).performAll ops).2.performAll taken).2.live) →
      (((empty limit).performAll ops).2.performAll more).2.get? slot =
        ((empty limit).performAll ops).2.get? slot := by
  constructor
  · exact (Matches.empty limit).replies
  · intro ops more slot hlive
    obtain ⟨s, hmatches⟩ := (Matches.empty limit).performAll ops
    exact hmatches.get?_performAll hlive

/-- A freed slot is taken again, a third frame is refused, and an unwinding frees both. -/
theorem replies_of_recycled :
    view.replies (empty (some 2))
      [.perform (.pushRoot ⟨0, 2⟩), .perform (.pushCall ⟨2, 1⟩ 7 1), .perform .pop,
        .perform (.pushCall ⟨2, 4⟩ 9 0), .perform (.pushCall ⟨6, 1⟩ 3 0), .current,
        .currentFrame, .perform (.pushRoot ⟨0, 2⟩), .perform .unwind, .live,
        .perform (.get 0)] =
      [.performed (.ok (.pushed 0)), .performed (.ok (.pushed 1)),
        .performed (.ok (.frame (some ⟨⟨2, 1⟩, some ⟨0, 7, 1⟩⟩))),
        .performed (.ok (.pushed 1)), .performed (.error (.exhausted (.frames 2))),
        .handle (some 1), .frame (some ⟨⟨2, 4⟩, some ⟨0, 9, 0⟩⟩),
        .performed (.error (.fault .rootOverLive)), .performed (.ok (.destroyed 2)),
        .count 0, .performed (.ok (.frame none))] :=
  (replies_eq (some 2)).1 _

end CallStack
end WindowVM
