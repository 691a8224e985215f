import Stencil.Template.Scope

/-! The open scopes as a stack of frames.

A frame has the nodes of one scope in document order, and the frames stand from the root outwards.
What is appended goes to the last frame, and an empty stack has none. The stack is never empty: it
starts with the root, and only scopes above the root are closed. So it is always that of a current
scope and the scopes around it.
-/

set_option autoImplicit false

namespace Stencil

structure Frames where
  contents : List (List Node)

namespace Frames

def root : Frames :=
  ⟨[[]]⟩

/-- The number of scopes that are open above the root. -/
def depth (frames : Frames) : Nat :=
  frames.contents.length - 1

/-- What is done to a stack. -/
inductive Act where
  | append (node : Node)
  | push
  | pop
  | takeLast

/-- The stack after an act, if there is a frame to act on. To close the root is refused, and
leaves the stack as it is. -/
def act? (frames : Frames) : Act → Option Frames
  | .append node =>
      frames.contents.getLast?.map fun content => ⟨frames.contents.dropLast ++ [content ++ [node]]⟩
  | .push => some ⟨frames.contents ++ [[]]⟩
  | .pop => some (if frames.contents.length = 1 then frames else ⟨frames.contents.dropLast⟩)
  | .takeLast =>
      frames.contents.getLast?.map fun content => ⟨frames.contents.dropLast ++ [content.dropLast]⟩

/-- The content of the root, when no scope is open any more. -/
def finish (frames : Frames) : Except Failure Template :=
  if 1 < frames.contents.length then .error (.of (.openScopes frames.depth))
  else .ok (frames.contents.getLast?.getD [])

end Frames

namespace Scope

/-- The current scope and those around it, as a stack. -/
def frames (scope : Scope) : Frames :=
  ⟨(scope.outer.map List.reverse).reverse ++ [scope.current.reverse]⟩

/-- What an act does to the current scope and those around it. -/
def act (scope : Scope) : Frames.Act → Scope
  | .append node => scope.append node
  | .push => scope.enter
  | .pop => (scope.leave?.map (·.2)).getD scope
  | .takeLast => { scope with current := scope.current.tail }

variable {scope other : Scope}

theorem frames_injective (same : scope.frames = other.frames) : scope = other := by
  obtain ⟨current, outer⟩ := scope
  obtain ⟨newest, around⟩ := other
  simp only [frames, Frames.mk.injEq] at same
  obtain ⟨others, last⟩ := List.append_inj' same rfl
  obtain rfl := List.reverse_inj.1 (List.singleton_inj.1 last)
  obtain rfl := (List.map_inj_right fun _ _ => List.reverse_inj.1).1 (List.reverse_inj.1 others)
  rfl

theorem frames_nonempty (scope : Scope) : scope.frames.contents ≠ [] := by
  simp [frames]

theorem depth_frames (scope : Scope) : scope.frames.depth = scope.depth := by
  simp [frames, Frames.depth, depth]

/-- The content that a scope gives when it is closed is that of the last frame. -/
theorem getLast?_frames {content : List Node} (left : scope.leave? = some (content, other)) :
    scope.frames.contents.getLast? = some content := by
  obtain ⟨current, outer⟩ := scope
  cases outer with
  | nil => cases left
  | cons around outer =>
      cases left
      simp [frames]

/-- The step: an act finds the frame that it acts on. -/
theorem act?_frames (scope : Scope) (act : Frames.Act) :
    scope.frames.act? act = some (scope.act act).frames := by
  obtain ⟨current, outer⟩ := scope
  cases act with
  | append node => simp [Frames.act?, frames, Scope.act, append]
  | push => simp [Frames.act?, frames, Scope.act, enter]
  | pop =>
      cases outer with
      | nil => rfl
      | cons around outer => simp [Frames.act?, frames, Scope.act, leave?]
  | takeLast => simp [Frames.act?, frames, Scope.act]

theorem finish_frames (scope : Scope) : scope.frames.finish = scope.finish := by
  rw [Frames.finish, depth_frames]
  obtain ⟨current, outer⟩ := scope
  cases outer with
  | nil => rfl
  | cons around outer => simp [finish, frames]

end Scope

namespace Frames

/-- The run: from the root on every act finds its frame, and the stack is that of one current
scope and the scopes around it. -/
theorem foldlM_act?_root (acts : List Act) :
    acts.foldlM act? root = some (acts.foldl Scope.act .root).frames := by
  suffices run : ∀ scope : Scope, acts.foldlM act? scope.frames = some (acts.foldl Scope.act scope).frames from
    run .root
  induction acts with
  | nil => exact fun scope => rfl
  | cons act acts ih =>
      intro scope
      rw [List.foldlM_cons, Scope.act?_frames, List.foldl_cons]
      exact ih (scope.act act)

/-- The stack is never empty. -/
theorem nonempty_of_foldlM_act? {acts : List Act} {frames : Frames}
    (run : acts.foldlM act? root = some frames) : frames.contents ≠ [] := by
  rw [foldlM_act?_root] at run
  obtain rfl := Option.some.inj run
  exact Scope.frames_nonempty _

end Frames

end Stencil
