import Stencil.Proofs.Fragment.Balance
import Stencil.Template.Compile

/-! Scanning with a check that it gets on.

Behind each delimiter a shorter text is left, so a scan that stops where this fails is the
scan without the check, whatever is done with the fragments.
-/

set_option autoImplicit false

namespace Stencil

namespace Fragment

open Text (byteSize fromOffset?)

variable {σ ε : Type}

/-- Why a scan ends early. -/
inductive ScanFault (ε : Type) where
  | fault (cause : Cause)
  /-- A delimiter leaves no shorter text. -/
  | noProgress (whole : String)
  /-- A fragment was refused. -/
  | refused (failure : ε)

/-- A literal is handed over if there is any text. -/
def handLiteral (take : σ → Fragment → Except ε σ) (text : List Char) (state : σ) : Except ε σ :=
  if text.isEmpty then .ok state else take state (.literal (String.ofList text))

/-- The fragments of a text are handed over as they are found. -/
def scanFrom (take : σ → Fragment → Except ε σ) (whole : String) (text : List Char) (state : σ) :
    Except (ScanFault ε) σ :=
  match segment? whole text with
  | .error cause => .error (.fault cause)
  | .ok none => (handLiteral take text state).mapError .refused
  | .ok (some segment) =>
      if byteSize segment.rest < byteSize text then do
        let state ← (handLiteral take segment.before state).mapError .refused
        let state ← (take state (.delimited (String.ofList segment.content))).mapError .refused
        scanFrom take whole segment.rest state
      else .error (.noProgress whole)
termination_by byteSize text

/-- What comes of the fragments that were read, and then of the fault behind them. -/
def handed (take : σ → Fragment → Except ε σ) (reading : Reading Fragment Cause) (state : σ) :
    Except (ScanFault ε) σ := do
  let state ← (reading.items.foldlM take state).mapError .refused
  match reading.fault with
  | some cause => .error (.fault cause)
  | none => .ok state

theorem handed_cons (take : σ → Fragment → Except ε σ) (fragment : Fragment)
    (reading : Reading Fragment Cause) (state : σ) : handed take (reading.cons fragment) state =
      (take state fragment).mapError .refused >>= handed take reading := by
  unfold handed
  cases taken : take state fragment with
  | error failure => simp [Reading.cons, List.foldlM_cons, taken]; rfl
  | ok next => simp [Reading.cons, List.foldlM_cons, taken]; rfl

theorem handed_literal (take : σ → Fragment → Except ε σ) (text : List Char)
    (reading : Reading Fragment Cause) (state : σ) :
    handed take (if text.isEmpty then reading else reading.cons (.literal (String.ofList text))) state =
      (handLiteral take text state).mapError .refused >>= handed take reading := by
  unfold handLiteral
  split
  · rfl
  · exact handed_cons take _ reading state

theorem handed_ne_noProgress (take : σ → Fragment → Except ε σ) (reading : Reading Fragment Cause)
    (state : σ) (whole : String) : handed take reading state ≠ .error (.noProgress whole) := by
  unfold handed
  cases reading.items.foldlM take state with
  | error failure => exact nofun
  | ok next => cases fault : reading.fault <;> exact nofun

/-! Progress -/

theorem exists_delimits_of_segment? {whole : String} {text : List Char} {segment : Segment}
    (found : segment? whole text = .ok (some segment)) :
    ∃ inside, Delimits text segment.before inside segment.rest := by
  cases opened : Text.split? opening text with
  | none =>
      rw [segment?_unopened whole opened] at found
      cases found
  | some parts =>
      obtain ⟨before, after⟩ := parts
      rw [segment?_opened whole opened] at found
      split at found
      · cases found
      rename_i inside rest closed
      split at found
      · cases found
      cases found
      obtain rfl := balance_append closed
      exact ⟨inside, opened, closed⟩

namespace Delimits

variable {text before inside rest : List Char} (delimits : Delimits text before inside rest)

include delimits

/-- From the opening braces up to the point of balance there are four bytes or more. -/
theorem add_four_le_stop : byteSize before + 4 ≤ stop before inside := by
  have room := delimits.content_le_stop
  omega

theorem fromOffset?_stop : fromOffset? (stop before inside) text = some rest := by
  have found := Text.fromOffset?_append (before ++ (opening ++ inside)) rest
  rw [List.append_assoc, List.append_assoc, delimits.append_eq, Text.byteSize_append,
    Text.byteSize_append, ← Nat.add_assoc] at found
  exact found

theorem byteSize_eq : byteSize text = stop before inside + byteSize rest := by
  have braces : byteSize opening = 2 := rfl
  rw [← delimits.append_eq]
  simp only [Text.byteSize_append, braces, stop]
  omega

end Delimits

theorem byteSize_of_segment? {whole : String} {text : List Char} {segment : Segment}
    (found : segment? whole text = .ok (some segment)) :
    byteSize segment.before + 4 + byteSize segment.rest ≤ byteSize text := by
  obtain ⟨inside, delimits⟩ := exists_delimits_of_segment? found
  rw [delimits.byteSize_eq]
  exact Nat.add_le_add_right delimits.add_four_le_stop _

/-- The check of a scan never fails, so all that is read is handed over. -/
theorem scanFrom_eq_handed (take : σ → Fragment → Except ε σ) (whole : String) (text : List Char)
    (state : σ) : scanFrom take whole text state = handed take (splitFrom whole text) state := by
  rw [scanFrom, splitFrom_eq]
  cases found : segment? whole text with
  | error cause => rfl
  | ok located =>
      cases located with
      | none =>
          -- All of the text is one literal, and nothing comes behind it.
          refine Eq.trans ?_ (handed_literal take text .nil state).symm
          cases handLiteral take text state <;> rfl
      | some segment =>
          have shorter : byteSize segment.rest < byteSize text := by
            have sizes := byteSize_of_segment? found
            omega
          have later := fun state => scanFrom_eq_handed take whole segment.rest state
          simp only [if_pos shorter, handed_literal, later]
          congr 1
          funext next
          rw [handed_cons]
termination_by byteSize text

/-- At the first opening braces of a text the search finds the first point of balance, if
there is one; without one the braces do not all close. What follows that point is at least
four bytes behind the opening braces and is what is scanned next, unless the content is cut
inside a character. So every scan gets on. -/
theorem first_balance_and_scan_progress (whole : String) (text : List Char) :
    (∀ start, IsLeast {start | OpensAt text start} start →
      (∀ point, search text 2 (start + 2) = some point ↔
        IsLeast {point | BalancesAt text start point} point) ∧
      (search text 2 (start + 2) = none ↔ ∀ point, ¬ BalancesAt text start point) ∧
      (search text 2 (start + 2) = none → segment? whole text = .error (.openBraces whole)) ∧
      ∀ point, search text 2 (start + 2) = some point →
        start + 4 ≤ point ∧ ∃ rest, fromOffset? point text = some rest ∧
          (Text.IsBoundary text (point - 2) → ∃ before content, byteSize before = start ∧
            segment? whole text = .ok (some ⟨before, content, rest⟩)) ∧
          (¬ Text.IsBoundary text (point - 2) → segment? whole text = .error (.cutCharacter whole))) ∧
    (∀ segment, segment? whole text = .ok (some segment) → byteSize segment.rest < byteSize text) ∧
    ∀ (σ ε : Type) (take : σ → Fragment → Except ε σ) (state : σ),
      scanFrom take whole text state = handed take (splitFrom whole text) state ∧
        ∀ named, scanFrom take whole text state ≠ .error (.noProgress named) := by
  refine ⟨fun start first => ?_, fun segment found => ?_, fun σ ε take state => ?_⟩
  · obtain ⟨before, after, opened, rfl⟩ := isLeast_opensAt_iff.1 first
    refine ⟨fun point => search_eq_some_iff opened, search_eq_none_iff opened, ?_, ?_⟩
    · intro lost
      rw [search_opened opened, Option.map_eq_none_iff] at lost
      rw [segment?_opened whole opened, lost]
    · intro point found
      rw [search_opened opened] at found
      obtain ⟨⟨inside, rest⟩, closed, rfl⟩ := Option.map_eq_some_iff.1 found
      obtain rfl := balance_append closed
      have delimits : Delimits text before inside rest := ⟨opened, closed⟩
      refine ⟨delimits.add_four_le_stop, rest, delimits.fromOffset?_stop, ?_, ?_⟩
      · intro boundary
        obtain ⟨content, cut⟩ := delimits.isBoundary_iff_content?.1 boundary
        refine ⟨before, content, rfl, ?_⟩
        rw [segment?_opened whole opened, closed]
        simp only [cut]
      · intro inner
        rw [delimits.isBoundary_iff_content?, ← Option.isSome_iff_exists,
          Option.not_isSome_iff_eq_none] at inner
        rw [segment?_opened whole opened, closed]
        simp only [inner]
  · have sizes := byteSize_of_segment? found
    omega
  · rw [scanFrom_eq_handed]
    exact ⟨rfl, handed_ne_noProgress take _ state⟩

/-- The braces around the letter are passed before the delimiter ends. -/
theorem first_balance_and_scan_progress_nested :
    IsLeast {start | OpensAt "\u00e4\x7b\x7b \x7bb\x7d \x7d\x7dc".toList start} 2 ∧
      search "\u00e4\x7b\x7b \x7bb\x7d \x7d\x7dc".toList 2 (2 + 2) = some 11 ∧
      IsLeast {point | BalancesAt "\u00e4\x7b\x7b \x7bb\x7d \x7d\x7dc".toList 2 point} 11 ∧
      fromOffset? 11 "\u00e4\x7b\x7b \x7bb\x7d \x7d\x7dc".toList = some ['c'] := by
  have first : IsLeast {start | OpensAt "\u00e4\x7b\x7b \x7bb\x7d \x7d\x7dc".toList start} 2 :=
    isLeast_opensAt_iff.2 ⟨_, _, rfl, rfl⟩
  have found : search "\u00e4\x7b\x7b \x7bb\x7d \x7d\x7dc".toList 2 (2 + 2) = some 11 :=
    (@search_opened "\u00e4\x7b\x7b \x7bb\x7d \x7d\x7dc".toList ['\u00e4'] _ rfl).trans rfl
  obtain ⟨points, -⟩ := (first_balance_and_scan_progress "" _).1 2 first
  exact ⟨first, found, (points 11).1 found, by decide⟩

end Fragment

/-- What a scan reports to the compiler, for any text of the check that never fails. -/
def Fragment.ScanFault.failure (unreached : String → Failure) : ScanFault Failure → Failure
  | .fault cause => .of cause
  | .noProgress whole => unreached whole
  | .refused failure => failure

/-- Text is added as it is scanned. -/
theorem Compiler.addText_eq_scan (unreached : String → Failure) (compiler : Compiler)
    (context : ViewContext) (scope : Scope) (text : String) : compiler.addText context scope text =
      (Fragment.scanFrom (compiler.addFragment context) text text.toList scope).mapError
        (Fragment.ScanFault.failure unreached) := by
  rw [Fragment.scanFrom_eq_handed, addText, Fragment.handed, Fragment.split]
  cases (Fragment.splitFrom text text.toList).items.foldlM (compiler.addFragment context) scope with
  | error failure => rfl
  | ok next => cases (Fragment.splitFrom text text.toList).fault <;> rfl

end Stencil
