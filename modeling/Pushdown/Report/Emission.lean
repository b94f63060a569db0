/-
  Pushdown.Report.Emission — remarks made about remarks, to any depth.

  A remark is made on a sink, and gives the sink for the notes on it. On a report it
  becomes a new entry at the end. On an entry, or on a note further down its chain, it
  becomes the next note, and whatever stood below is given up. What is noted down meanwhile
  is left aside.
-/

import Pushdown.Report

namespace Pushdown

/-- What a remark is made on. -/
inductive Sink where
  | report
  /-- The entry of this index, or what stands so many notes below it. -/
  | entry (index depth : Nat)
  deriving DecidableEq, Repr

/-- A remark and the remarks then made on it, in order. -/
inductive Emission where
  | node (remark : Remark) (notes : List Emission)

def Emission.remark : Emission → Remark
  | node r _ => r

namespace Entry

/-- An entry as it is made: notes come later. -/
def ofRemark (r : Remark) : Entry := ⟨r, []⟩

/-- Changes what stands so many notes below the top of a chain, with all that is below it;
    a chain that does not reach as far stays as it is. -/
def change (f : Entry → Entry) : Nat → Entry → Entry
  | 0, e => f e
  | _ + 1, ⟨r, []⟩ => ⟨r, []⟩
  | depth + 1, ⟨r, note :: notes⟩ => annotate ⟨r, []⟩ (change f depth ⟨note, notes⟩)

end Entry

namespace Report

/-- Changes an entry, or what stands below it. The error flag is not looked at again. -/
def change (r : Report) (index depth : Nat) (f : Entry → Entry) : Report :=
  { r with entries := r.entries.modify index (Entry.change f depth) }

/-- Makes a remark on a sink. The sink this gives is what the remark became. -/
def emitOn (r : Report) (remark : Remark) : Sink → Report × Sink
  | .report => ((r.emit (.ofRemark remark)).result, .entry r.entries.size 0)
  | .entry index depth =>
    (r.change index depth fun e => e.annotate (.ofRemark remark), .entry index (depth + 1))

mutual

/-- Makes a remark on a sink, then the notes on what it became. -/
def emitTree (r : Report) (sink : Sink) : Emission → Report
  | .node remark notes =>
    let (made, here) := r.emitOn remark sink
    made.emitTrees here notes

/-- Makes remarks on one sink, each with its notes, one after the other. -/
def emitTrees (r : Report) (sink : Sink) : List Emission → Report
  | [] => r
  | e :: rest => (r.emitTree sink e).emitTrees sink rest

end

/-- The report on a sequence of remarks. -/
def ofEmissions (emissions : List Emission) : Report := empty.emitTrees .report emissions

/-- Whether there is an error before the first remark and after each one with its notes. -/
def errorFlags (r : Report) : List Emission → List Bool
  | [] => [r.hasError]
  | e :: rest => r.hasError :: errorFlags (r.emitTree .report e) rest

end Report

end Pushdown
