import Flyos.Lib.Overlay
import Mathlib.Data.List.Basic
import Mathlib.Logic.Function.Basic

/-!
# Where the bytes of files come from

What happens to files, in their own terms: a file is created or truncated, a write
stores bytes in it, a read returns bytes of it.  A `FileEffect` is one such event, and
a log is the list of them, the last one first.

`StoredIn log f k b` says that a write stored `b` at offset `k` of `f`, and that `f`
was neither created nor truncated after that.  A log is `Honest` when every byte that a
read returned was stored in this sense.  Contents that follow their log, and are backed
by it at the start, keep it honest (`Follows.honest`).
-/

namespace Flyos

/-- What happens to the file at a node. -/
inductive FileEffect where
  | created (f : Nat)
  | truncated (f : Nat)
  | stored (f off : Nat) (bytes : List UInt8)
  | returned (f off : Nat) (bytes : List UInt8)
  deriving DecidableEq

/-- The byte `b` was stored at offset `k` of `f`, and `f` was neither created nor
truncated since. -/
def StoredIn : List FileEffect → Nat → Nat → UInt8 → Prop
  | [], _, _, _ => False
  | .created g :: log, f, k, b => g ≠ f ∧ StoredIn log f k b
  | .truncated g :: log, f, k, b => g ≠ f ∧ StoredIn log f k b
  | .stored g off bytes :: log, f, k, b =>
      (g = f ∧ off ≤ k ∧ bytes[k - off]? = some b) ∨ StoredIn log f k b
  | .returned .. :: log, f, k, b => StoredIn log f k b

/-- **Every byte that was returned had been stored.** -/
def Honest : List FileEffect → Prop
  | [] => True
  | .returned f off bytes :: log =>
      (∀ i b, bytes[i]? = some b → StoredIn log f (off + i) b) ∧ Honest log
  | .created _ :: log => Honest log
  | .truncated _ :: log => Honest log
  | .stored .. :: log => Honest log

/-- The contents of all files. -/
abbrev Contents : Type := Nat → List UInt8

/-- Every byte of every file was stored. -/
def Backed (c : Contents) (log : List FileEffect) : Prop :=
  ∀ f k b, (c f)[k]? = some b → StoredIn log f k b

/-- **What each event does to contents.**  A write starts in its file or at its end. -/
inductive Happens : Contents → FileEffect → Contents → Prop
  | created {c : Contents} {f : Nat} (empty : c f = []) : Happens c (.created f) c
  | truncated {c : Contents} (f : Nat) : Happens c (.truncated f) (Function.update c f [])
  | stored {c : Contents} {f off : Nat} (bytes : List UInt8) (inside : off ≤ (c f).length) :
      Happens c (.stored f off bytes) (Function.update c f (overlay (c f) off bytes))
  | returned {c : Contents} {f off : Nat} {bytes : List UInt8}
      (there : ∀ i b, bytes[i]? = some b → (c f)[off + i]? = some b) :
      Happens c (.returned f off bytes) c

/-- Contents that follow a list of events, the last one first. -/
inductive Follows : Contents → List FileEffect → Contents → Prop
  | nil (c : Contents) : Follows c [] c
  | cons {c c' c'' : Contents} {e : FileEffect} {es : List FileEffect} :
      Follows c es c' → Happens c' e c'' → Follows c (e :: es) c''

variable {c c' : Contents} {log : List FileEffect}

/-- One event. -/
theorem Follows.single {e : FileEffect} (one : Happens c e c') : Follows c [e] c' :=
  .cons (.nil c) one

/-- A byte after a write is one that it stored, or one that was there. -/
theorem getElem?_overlay {l src : List UInt8} {off k : Nat} {b : UInt8} (inside : off ≤ l.length)
    (h : (overlay l off src)[k]? = some b) :
    (off ≤ k ∧ src[k - off]? = some b) ∨ l[k]? = some b := by
  have front : (l.take off).length = off := List.length_take_of_le inside
  rw [overlay, List.append_assoc] at h
  by_cases before : k < off
  · rw [List.getElem?_append_left (by omega), List.getElem?_take_of_lt before] at h
    exact .inr h
  rw [List.getElem?_append_right (by omega), front] at h
  by_cases within : k - off < src.length
  · rw [List.getElem?_append_left within] at h
    exact .inl ⟨by omega, h⟩
  · rw [List.getElem?_append_right (by omega), List.getElem?_drop] at h
    rw [show off + src.length + (k - off - src.length) = k by omega] at h
    exact .inr h

/-- Contents stay backed. -/
theorem Happens.backed {e : FileEffect} (one : Happens c e c') (backed : Backed c log) :
    Backed c' (e :: log) := by
  intro f k b there
  cases one with
  | created empty =>
      refine ⟨fun same => ?_, backed f k b there⟩
      subst same
      rw [empty] at there
      cases there
  | truncated g =>
      by_cases same : f = g
      · subst same
        rw [Function.update_self] at there
        cases there
      · rw [Function.update_of_ne same] at there
        exact ⟨Ne.symm same, backed f k b there⟩
  | @stored g off bytes inside =>
      by_cases same : f = g
      · subst same
        rw [Function.update_self] at there
        exact (getElem?_overlay inside there).imp (fun new => ⟨rfl, new⟩) (backed f k b)
      · rw [Function.update_of_ne same] at there
        exact .inr (backed f k b there)
  | returned => exact backed f k b there

/-- One event keeps a log honest. -/
theorem Happens.honest {e : FileEffect} (one : Happens c e c') (backed : Backed c log)
    (honest : Honest log) : Honest (e :: log) := by
  cases one with
  | created => exact honest
  | truncated => exact honest
  | stored => exact honest
  | @returned f off bytes there =>
      exact ⟨fun i b h => backed f (off + i) b (there i b h), honest⟩

/-- **Contents that follow their log keep it honest.** -/
theorem Follows.honest {es : List FileEffect} (follows : Follows c es c')
    (backed : Backed c log) (honest : Honest log) :
    Backed c' (es ++ log) ∧ Honest (es ++ log) := by
  induction follows with
  | nil => exact ⟨backed, honest⟩
  | cons _ one ih =>
      obtain ⟨backed', honest'⟩ := ih
      exact ⟨one.backed backed', one.honest backed' honest'⟩

end Flyos
