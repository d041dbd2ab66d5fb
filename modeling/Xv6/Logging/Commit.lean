import Xv6.Buffer.Cache

/-!
# Commit and recovery

The functions of `log.c` that go to the disk, and a file system operation as one
process runs it: `begin_op`, updates of blocks through `log_write`, `end_op`.

## Implementation notes

`copyTo` is the part that the loops of `install_trans` and `write_log` share:
they read the log block, then the home block, and copy in opposite directions.
-/

namespace Xv6.Logging
open Fs Lib Buffer

/-- Change the log in memory. -/
def updLog (f : Log → Log) : Code Unit := Exec.modify fun m => { m with log := f m.log }

/-- Copy a buffer into another one, write that one to the disk and release both. -/
def copyTo (src dst : Fin NBUF) : Code Unit := do
  let m ← Exec.get
  setData dst fun _ => (m.buf src).data
  bwrite dst
  brelse src
  brelse dst

/-- A turn of the loop in `install_trans`. -/
def installBlock (l : Log) (block : ℕ × ℕ) : Code Unit := do
  let lbuf ← bread ⟨l.dev, l.start + block.2 + 1⟩
  let dbuf ← bread ⟨l.dev, block.1⟩
  copyTo lbuf dbuf

/-- `install_trans`. -/
def installTrans : Code Unit := do
  let m ← Exec.get
  Exec.each (installBlock m.log) m.log.lh.zipIdx

/-- The field `n` of a header block, as the bound of a loop. -/
def headCount (b : Block) : ℕ := (b.word 0).toBitVec.toInt.toNat

/-- `read_head`. The array `log.lh.block` has `LOGSIZE` entries. -/
def readHead : Code Unit := do
  let m ← Exec.get
  let i ← bread ⟨m.log.dev, m.log.start⟩
  let m ← Exec.get
  let b := (m.buf i).data
  Exec.stopIf (LOGSIZE < headCount b) Stop.overrun
  updLog fun l => { l with lh := (List.range (headCount b)).map fun k => (b.word (k + 1)).toNat }
  brelse i

/-- What `write_head` stores into the header block. -/
def putHead (lh : List ℕ) (b : Block) : Block :=
  lh.zipIdx.foldl (fun b x => b.setWord (x.2 + 1) (UInt32.ofNat x.1))
    (b.setWord 0 (UInt32.ofNat lh.length))

/-- `write_head`. -/
def writeHead : Code Unit := do
  let m ← Exec.get
  let i ← bread ⟨m.log.dev, m.log.start⟩
  setData i (putHead m.log.lh)
  bwrite i
  brelse i

/-- `recover_from_log`. -/
def recoverFromLog : Code Unit := do
  readHead
  installTrans
  updLog fun l => { l with lh := [] }
  writeHead

/-- A turn of the loop in `write_log`. -/
def logBlock (l : Log) (block : ℕ × ℕ) : Code Unit := do
  let lbuf ← bread ⟨l.dev, l.start + block.2 + 1⟩
  let hbuf ← bread ⟨l.dev, block.1⟩
  copyTo hbuf lbuf

/-- `write_log`. -/
def writeLog : Code Unit := do
  let m ← Exec.get
  Exec.each (logBlock m.log) m.log.lh.zipIdx

/-- `commit`. -/
def commit : Code Unit := do
  let m ← Exec.get
  if 0 < m.log.lh.length then
    writeLog
    writeHead
    installTrans
    updLog fun l => { l with lh := [] }
    writeHead

/-- `log_write`. -/
def logWrite (i : Fin NBUF) : Code Unit := do
  let m ← Exec.get
  panicIf (m.log.headerFull ∨ m.log.areaFull) .tooBig
  panicIf (m.log.outstanding < 1) .outsideTrans
  updLog fun l => l.record (m.buf i).id.blockno
  updBuf i fun b => { b with dirty := true }

/-- `begin_op`. A process alone that goes to sleep is not woken. -/
def beginOp : Code Unit := do
  let m ← Exec.get
  match m.log.beginOp with
  | none => Exec.stop .hang
  | some l => updLog fun _ => l

/-- `end_op`. -/
def endOp : Code Unit := do
  let m ← Exec.get
  match m.log.endOp with
  | .error e => Exec.stop (.panic e)
  | .ok (l, doCommit) =>
    updLog fun _ => l
    if doCommit then
      commit
      updLog fun l => { l with committing := false }

/-- An operation changes blocks one after the other. -/
abbrev Tx : Type := List (ℕ × (Block → Block))

/-- Read a block, modify it, log it and release it. -/
def update (x : ℕ × (Block → Block)) : Code Unit := do
  let m ← Exec.get
  let i ← bread ⟨m.log.dev, x.1⟩
  setData i x.2
  logWrite i
  brelse i

/-- One operation, with the commit at its end. -/
def transaction (tx : Tx) : Code Unit := do
  beginOp
  Exec.each update tx
  endOp

/-- Operations one after the other. -/
def transactions : List Tx → Code Unit := Exec.each transaction

end Xv6.Logging
