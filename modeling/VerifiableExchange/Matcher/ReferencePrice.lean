import Mathlib.Data.String.Basic
import VerifiableExchange.Domain
import VerifiableExchange.Lib.SortedMap

/-!
# ReferencePrice — the price the protection collar is measured from

Per symbol, the mid prices the book showed over the last 30 seconds, with running sums over the
samples that are no longer the newest. A sample holds from its own timestamp until the next one's;
`none` is a book with one side empty, and it ends the price before it.
-/

namespace VerifiableExchange
namespace Matcher

open Lib

/-- How far back the reference price is averaged over, in milliseconds. -/
def windowMs : Nat := 30000

/-- A timestamp, and the mid price the book showed from then on. -/
abbrev Sample := Nat × Option Int

structure SymbolWindow where
  /-- Oldest first. -/
  samples : List Sample
  /-- The sum of `mid * held` over every sample but the newest, from `clipMs` on. -/
  closedWeighted : Int
  /-- The sum of `held` over the same samples. -/
  closedWeight : Int
  /-- The moment the two sums start counting from. -/
  clipMs : Nat
  deriving DecidableEq

/-- A `(weighted, weight)` pair: the sum of `mid * held`, and the sum of `held`. -/
abbrev Sums := Int × Int

def Sums.add (a b : Sums) : Sums := (a.1 + b.1, a.2 + b.2)

/-- What one sample adds when it held its mid for `held` milliseconds. -/
def Sums.ofHold (mid : Option Int) (held : Nat) : Sums :=
  match mid with
  | some mid => (mid * held, held)
  | none => (0, 0)

namespace SymbolWindow

def default : SymbolWindow := ⟨[], 0, 0, 0⟩

/-- What the kept sums lose when the window opening moves from `clipMs` forward to `clip`. The
walk stops at the first sample that still holds when the window opens. -/
def lossTo (clipMs clip : Nat) : List Sample → Sums
  | (start, mid) :: (next, mid') :: rest =>
      if clip ≤ start then (0, 0)
      else
        let lost := Sums.ofHold mid (min next clip - max start clipMs)
        if clip < next then lost
        else lost.add (lossTo clipMs clip ((next, mid') :: rest))
  | _ => (0, 0)

/-- Drops the samples whose whole hold ends at or before `clip`. -/
def dropBefore (clip : Nat) : List Sample → List Sample
  | first :: second :: rest =>
      if second.1 ≤ clip then dropBefore clip (second :: rest) else first :: second :: rest
  | samples => samples

/-- What the oldest sample holds again when the window opens earlier than it did. -/
def gainedTo (clipMs clip : Nat) : List Sample → Sums
  | (start, mid) :: (next, _) :: _ =>
      match mid with
      | some mid =>
          let gained : Int := (max (min next clipMs) start : Int) - (max (min next clip) start : Int)
          (mid * gained, gained)
      | none => (0, 0)
  | _ => (0, 0)

/-- Moves the moment the kept sums start counting from to `clip`. -/
def clipTo (w : SymbolWindow) (clip : Nat) : SymbolWindow :=
  let sums : Sums :=
    if w.clipMs ≤ clip then
      let loss := lossTo w.clipMs clip w.samples
      (w.closedWeighted - loss.1, w.closedWeight - loss.2)
    else
      let gain := gainedTo w.clipMs clip w.samples
      (w.closedWeighted + gain.1, w.closedWeight + gain.2)
  { samples := dropBefore clip w.samples
    closedWeighted := sums.1
    closedWeight := sums.2
    clipMs := clip }

/-- The plain reading of the rule: every sample's hold, clipped to the window asked about. -/
def walked (atMs opensAt : Nat) : List Sample → Sums
  | [] => (0, 0)
  | [(start, mid)] => Sums.ofHold mid (atMs - max start opensAt)
  | (start, mid) :: (next, mid') :: rest =>
      (Sums.ofHold mid (min next atMs - max start opensAt)).add
        (walked atMs opensAt ((next, mid') :: rest))

/-- The pair the reference price divides, at `atMs`, over a window that opens at `opensAt`. -/
def sumsAt (w : SymbolWindow) (atMs opensAt : Nat) : Sums :=
  match w.samples.getLast? with
  | none => (0, 0)
  | some (newestAt, newestMid) =>
      if atMs < newestAt ∨ opensAt < w.clipMs then walked atMs opensAt w.samples
      else
        let lost := lossTo w.clipMs opensAt w.samples
        Sums.add (w.closedWeighted - lost.1, w.closedWeight - lost.2)
          (Sums.ofHold newestMid (atMs - max newestAt opensAt))

/-- Replaces the mid of the newest sample. -/
def setNewestMid (midCents : Option Int) : List Sample → List Sample
  | [] => []
  | [(start, _)] => [(start, midCents)]
  | first :: second :: rest => first :: setNewestMid midCents (second :: rest)

/-- Records what the mid became. A timestamp that does not go up is read as the last one that
did. -/
def observe (w : SymbolWindow) (atMs : Nat) (midCents : Option Int) : SymbolWindow :=
  match w.samples.getLast? with
  | none => { w with samples := w.samples ++ [(atMs, midCents)] }.clipTo (atMs - windowMs)
  | some (last, mid) =>
      let at' := max atMs last
      if last = at' then
        { w with samples := setNewestMid midCents w.samples }.clipTo (at' - windowMs)
      else if mid = midCents then w.clipTo (at' - windowMs)
      else
        -- The sample that was newest stops here, so its hold joins the kept sums.
        let held := Sums.ofHold mid (at' - max last w.clipMs)
        { w with
          samples := w.samples ++ [(at', midCents)]
          closedWeighted := w.closedWeighted + held.1
          closedWeight := w.closedWeight + held.2 }.clipTo (at' - windowMs)

end SymbolWindow

/-- One symbol's window, as stored. -/
structure MidWindowRow where
  clipMs : Nat
  samples : List Sample
  deriving DecidableEq

/-- The mid prices one engine has watched, per symbol. -/
abbrev MidWindow := SortedMap String SymbolWindow

namespace MidWindow

def snapshot (w : MidWindow) : SortedMap String MidWindowRow :=
  w.mapValues (fun window => { clipMs := window.clipMs, samples := window.samples })

def observe (w : MidWindow) (symbol : String) (atMs : Nat) (midCents : Option Int) : MidWindow :=
  w.insert symbol ((w.getD symbol .default).observe atMs midCents)

/-- A wide integer cast to a signed 64-bit one. -/
def castI64 (x : Int) : Int := x.bmod 18446744073709551616

/-- The reference price at `atMs`, in cents; `none` where nothing has held for any time. -/
def referenceCents (w : MidWindow) (symbol : String) (atMs : Nat) : Option Int :=
  match w.get? symbol with
  | none => none
  | some window =>
      let sums := window.sumsAt atMs (atMs - windowMs)
      if 0 < sums.2 then some (castI64 (sums.1.tdiv sums.2)) else none

/-- The sums over the closed samples, worked out again from the samples. -/
def closedSums (clipMs : Nat) : List Sample → Sums
  | (start, mid) :: (next, mid') :: rest =>
      (Sums.ofHold mid (next - max start clipMs)).add (closedSums clipMs ((next, mid') :: rest))
  | _ => (0, 0)

/-- Whether a stored row can be one window's samples. -/
def rowValid (row : MidWindowRow) : Prop :=
  row.samples ≠ [] ∧ row.samples.length ≤ windowMs + 1 ∧
    row.samples.IsChain (fun a b => a.1 < b.1) ∧
    ∀ sample ∈ row.samples, ∀ mid, sample.2 = some mid → 0 < mid

end MidWindow

end Matcher
end VerifiableExchange
