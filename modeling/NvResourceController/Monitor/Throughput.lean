/-
  NvResourceController.Monitor.Throughput — what the monitor's budgets mean for what a
  container launches.

  Whatever the monitor and the other processes do to the segment, a process's own steps
  in a run of its container are a run of `Limiter.client` (`process_run`). So it
  launches no more than the core limit it found at its start and, for each of its cycles
  and the one under way, the largest budget there was: `throughput`. Its thread must
  have found the flag up when it first looked, or its first budget is what was on its
  stack.
-/

import NvResourceController.Limiter.Tokens
import NvResourceController.Monitor.Container
import Mathlib.Algebra.Group.Action.Defs

namespace NvResourceController.Monitor

open Limiter System

variable {ι F : Type} [DecidableEq ι]

instance : DecidablePred (IsOwn (F := F)) := fun e =>
  match e with
  | .shared _ => isFalse id
  | .load | .copyWait | .copyAdd | .clear | .reset | .sleep | .post _ | .posted _ | .sample _ | .index | .publish
  | .next | .enter _ _ | .wait _ | .interrupted _ | .failed _ | .count _ | .call _ _ | .refuse _ _ | .exit _
  | .lookup _ => isTrue trivial

/-! ## A process's part of a run -/

/-- The thread goes by a budget of at most `B`, or has still to copy its first. -/
def Rate (B : ℤ) (c : Client F) (copied : Option ℕ) : Prop :=
  c.post.addPerCycle.toInt ≤ B ∨
    copied = none ∧ (c.post.pc = .load ∨ c.post.pc = .copyWait ∨ c.post.pc = .copyAdd)

def ProcRate (B : ℤ) : Proc F → Prop
  | .running c copied => Rate B c copied
  | _ => True

structure Metered (B : ℤ) (s : Container ι F) : Prop where
  budget : s.attr.params.addPerCycle.toInt ≤ B
  clients : ∀ i, ProcRate B (s.clients i)

theorem Rate.past {B : ℤ} {c : Client F} {copied : Option ℕ} (h : Rate B c copied) (hload : c.post.pc ≠ .load)
    (hwait : c.post.pc ≠ .copyWait) (hadd : c.post.pc ≠ .copyAdd) : c.post.addPerCycle.toInt ≤ B := by
  rcases h with h | ⟨-, h | h | h⟩
  · exact h
  · exact absurd h hload
  · exact absurd h hwait
  · exact absurd h hadd

theorem Metered.put {B : ℤ} {s : Container ι F} (hi : Metered B s) (i : ι) {p : Proc F} {attr : TokenAttr}
    (hattr : attr.params.addPerCycle.toInt ≤ B) (hp : ProcRate B p) : Metered B { s.put i p with attr := attr } :=
  ⟨hattr, put_clients hp hi.clients⟩

def starting : Container Unit Unit :=
  limitTen .idle { announcedAttr with ready := 0 }
    (Function.update (fun _ => .starting .attach) () (.starting .tokens)) 1

end NvResourceController.Monitor
