import Mathlib.Data.List.Basic
import Mathlib.Algebra.Group.Int

/-!
# Roots — `TokioFile`

`TokioFile` (`roots/src/async_file/tokio.rs`) keeps its own `position` beside the operating
system's offset of the open file, and `read_at` and `write_at` seek by the difference between the
position asked for and `position` (`SeekFrom::Current(delta)`).

* `OsFile` is the open file the code relies on: its bytes, its offset, and how it was opened;
  `lseek(SEEK_CUR)`, `read` and `write` are the POSIX calls. A write to a file opened for
  appending goes at its end, whatever the offset.
* `File` is `tokio::fs::File` over it. A `read` or a `write` moves at most `maxBufSize` bytes.
  `write` takes the bytes into its buffer and returns their count at once, and a blocking task
  runs the POSIX `write`; when that fails, the error is kept (`last_write_err`) and the next
  `write` returns it. Every later operation of the file waits for the blocking task first, so the
  model runs the POSIX `write` when `write` returns.
* `TokioFile.Synced`: `position` is the offset. While it holds, `read_at` returns the file's bytes
  from the position asked for (`Synced.readAt`).
* `TokioFile::append` starts with `position` at the file's length but the offset at `0`
  (`append_position_ahead_of_offset`); from there the two differ by `0` or by that length,
  either way (`append_drift_is_opening_length`), so a file `append` creates stays synced.
-/

namespace BonsaiDb.Roots

/-- How the file was opened: by `File::open`, or by `TokioFile::append`'s `OpenOptions` (read,
write, append, create). -/
inductive OpenMode where
  | readOnly
  | readAppend
  deriving DecidableEq, Repr

/-- An open file: its bytes, the offset, and how it was opened. -/
structure OsFile where
  contents : List UInt8
  offset : Nat
  mode : OpenMode
  deriving DecidableEq, Repr

/-- The errors of the calls below: `EINVAL` from a seek before the start, `EBADF` from a write
to a file opened read-only. -/
inductive IoError where
  | invalidSeek
  | badDescriptor
  deriving DecidableEq, Repr

namespace OsFile

/-- `lseek(fd, delta, SEEK_CUR)`. -/
def seekCurrent (f : OsFile) (delta : Int) : Except IoError OsFile :=
  if 0 ≤ (f.offset : Int) + delta then .ok { f with offset := ((f.offset : Int) + delta).toNat }
  else .error .invalidSeek

/-- `read(fd, len)`: the bytes from the offset, at most `len`, none at or past the end. -/
def read (f : OsFile) (len : Nat) : List UInt8 × OsFile :=
  let bytes := (f.contents.drop f.offset).take len
  (bytes, { f with offset := f.offset + bytes.length })

/-- `write(fd, bytes)`: refused on a file opened read-only; with `O_APPEND` the bytes go at the
end, and the offset after them. -/
def write (f : OsFile) (bytes : List UInt8) : Except IoError OsFile :=
  match f.mode with
  | .readOnly => .error .badDescriptor
  | .readAppend =>
    .ok { f with contents := f.contents ++ bytes, offset := f.contents.length + bytes.length }

end OsFile

/-- Modelled from tokio, which is not among the sources: `DEFAULT_MAX_BUF_SIZE`, the most bytes
one `read` or `write` of a `tokio::fs::File` moves. -/
def maxBufSize : Nat := 2 * 1024 * 1024

/-- `tokio::fs::File`: the open file its blocking tasks run on, and the error of a background
write it has not returned yet (`last_write_err`). -/
structure File where
  std : OsFile
  lastWriteErr : Option IoError
  deriving DecidableEq, Repr

namespace File

/-- `poll_read`: one POSIX `read` of at most `maxBufSize` bytes, copied out of the buffer. -/
def read (f : File) (len : Nat) : List UInt8 × File :=
  let (bytes, std) := f.std.read (min len maxBufSize)
  (bytes, { f with std })

/-- `poll_write`: a kept error is returned, and cleared, before anything is written; otherwise at
most `maxBufSize` of the bytes go into the buffer and their count is returned, and an error of
their POSIX `write` is kept. -/
def write (f : File) (bytes : List UInt8) : Except IoError Nat × File :=
  match f.lastWriteErr with
  | some e => (.error e, { f with lastWriteErr := none })
  | none =>
    let n := min bytes.length maxBufSize
    match f.std.write (bytes.take n) with
    | .ok std => (.ok n, { f with std })
    | .error e => (.ok n, { f with lastWriteErr := some e })

/-- `seek(SeekFrom::Current(delta))`. -/
def seekCurrent (f : File) (delta : Int) : Except IoError File :=
  (f.std.seekCurrent delta).map fun std => { f with std }

end File

/-- `TokioFile`: its `position` and its open file (the `path` no function here reads). -/
structure TokioFile where
  position : Nat
  file : File
  deriving DecidableEq, Repr

/-- An operation of `AsyncFile` on a `TokioFile`. -/
inductive FileOp where
  | readAt (position : Nat) (buffer : List UInt8) (offset len : Nat)
  | writeAt (position : Nat) (buffer : List UInt8) (offset len : Nat)
  deriving DecidableEq, Repr

namespace TokioFile

/-- `TokioFile::read`: `File::open`, at position `0`. -/
def read (contents : List UInt8) : TokioFile := ⟨0, ⟨⟨contents, 0, .readOnly⟩, none⟩⟩

/-- `TokioFile::append`: `position` is the file's length (`0` for a missing file, which is then
created empty), and the file is opened for appending, at offset `0`. -/
def append (contents : List UInt8) : TokioFile :=
  ⟨contents.length, ⟨⟨contents, 0, .readAppend⟩, none⟩⟩

/-- The seek `read_at` and `write_at` start with (lines 72–76 and 92–96): `none` where
`i64::try_from(..).unwrap()` panics; on success `position` is the offset `seek` returns. -/
def seekTo (t : TokioFile) (position : Nat) : Option (Except IoError TokioFile) :=
  if position < 2^63 ∧ t.position < 2^63 then
    let delta : Int := (position : Int) - t.position
    if delta ≠ 0 then some ((t.file.seekCurrent delta).map fun f => ⟨f.std.offset, f⟩)
    else some (.ok t)
  else none

/-- `read_at` (lines 64–84): the file after it, the count read, and the buffer with the bytes read
from `offset` on; `none` where it panics (the slice `offset..offset + len` out of the buffer). A
failed seek returns its error before the buffer is sliced. -/
def readAt (t : TokioFile) (position : Nat) (buffer : List UInt8) (offset len : Nat) :
    Option (TokioFile × Except IoError Nat × List UInt8) :=
  (t.seekTo position).bind fun
    | .error e => some (t, .error e, buffer)
    | .ok t' =>
      if offset + len ≤ buffer.length then
        let (bytes, f) := t'.file.read len
        some (⟨t'.position + bytes.length, f⟩, .ok bytes.length,
          buffer.take offset ++ bytes ++ buffer.drop (offset + bytes.length))
      else none

/-- `write_at` (lines 86–104): the file after it, the count written, and the buffer. -/
def writeAt (t : TokioFile) (position : Nat) (buffer : List UInt8) (offset len : Nat) :
    Option (TokioFile × Except IoError Nat × List UInt8) :=
  (t.seekTo position).bind fun
    | .error e => some (t, .error e, buffer)
    | .ok t' =>
      if offset + len ≤ buffer.length then
        match t'.file.write ((buffer.drop offset).take len) with
        | (.ok n, f) => some (⟨t'.position + n, f⟩, .ok n, buffer)
        | (.error e, f) => some (⟨t'.position, f⟩, .error e, buffer)
      else none

/-- The file after an operation. -/
def step (t : TokioFile) : FileOp → Option TokioFile
  | .readAt position buffer offset len => (t.readAt position buffer offset len).map (·.1)
  | .writeAt position buffer offset len => (t.writeAt position buffer offset len).map (·.1)

/-- `position` is the offset of the open file. -/
def Synced (t : TokioFile) : Prop := t.position = t.file.std.offset

/-- The operations the drift results cover: positions below `2^63`, past which
`i64::try_from(..).unwrap()` panics, and writes at the file's end, where the append-only tree
store writes. -/
def Allowed (t : TokioFile) : FileOp → Prop
  | .readAt position _ _ _ => position < 2^63
  | .writeAt position _ _ _ => position < 2^63 ∧ position = t.file.std.contents.length

end TokioFile

/-- The files a `TokioFile` becomes from `start` by allowed operations. -/
inductive Reaches (start : TokioFile) : TokioFile → Prop where
  | refl : Reaches start start
  | step {t t' : TokioFile} {op : FileOp} : Reaches start t → t.Allowed op → t.step op = some t' →
    Reaches start t'

namespace TokioFile

/-- From a synced file, the seek lands on the position asked for, unless a position is too
large for `i64`. -/
theorem Synced.seekTo {t : TokioFile} (h : t.Synced) (position : Nat) :
    t.seekTo position = if position < 2^63 ∧ t.position < 2^63 then
      some (.ok ⟨position, { t.file with std := { t.file.std with offset := position } }⟩)
    else none := by
  unfold TokioFile.seekTo
  dsimp only
  split_ifs with hrange hdelta
  · have hsum : (t.file.std.offset : Int) + ((position : Int) - t.position) = position := by
      rw [← h]; omega
    simp only [File.seekCurrent, OsFile.seekCurrent, hsum, if_pos (Int.ofNat_zero_le position),
      Except.map]
    rfl
  · have hpos : position = t.position := by omega
    obtain ⟨tp, ⟨⟨contents, offset, mode⟩, err⟩⟩ := t
    simp only [Synced] at h
    dsimp only at hpos
    subst hpos h
    rfl
  · rfl

/-- While synced, `read_at` reads the file's bytes from the position asked for, at most `len` and
at most `maxBufSize`, none at or past the end, and leaves the file synced. -/
theorem Synced.readAt {t : TokioFile} {position : Nat} {buffer : List UInt8} {offset len : Nat}
    {t' : TokioFile} {result : Except IoError Nat × List UInt8} (h : t.Synced)
    (hread : t.readAt position buffer offset len = some (t', result)) :
    t'.Synced ∧ t'.file.std.contents = t.file.std.contents ∧
      result = (.ok ((t.file.std.contents.drop position).take (min len maxBufSize)).length,
        buffer.take offset ++ (t.file.std.contents.drop position).take (min len maxBufSize) ++
          buffer.drop
            (offset + ((t.file.std.contents.drop position).take (min len maxBufSize)).length)) := by
  rw [TokioFile.readAt, h.seekTo] at hread
  by_cases hrange : position < 2^63 ∧ t.position < 2^63
  · by_cases hbuffer : offset + len ≤ buffer.length
    · simp only [if_pos hrange, Option.some_bind, if_pos hbuffer, Option.some.injEq,
        Prod.mk.injEq] at hread
      obtain ⟨rfl, rfl⟩ := hread
      exact ⟨rfl, rfl, rfl⟩
    · rw [if_pos hrange, Option.some_bind] at hread
      exact absurd hread (by simp only [if_neg hbuffer]; exact Option.noConfusion)
  · rw [if_neg hrange, Option.none_bind] at hread
    cases hread

end TokioFile

/-- `TokioFile::append` on a file of three bytes: `position` is `3` but the offset `0`, so
`read_at` at the end of the file reads one byte, the file's first, where it should read none. -/
theorem append_position_ahead_of_offset :
    (TokioFile.append [1, 2, 3]).position = 3 ∧
      (TokioFile.append [1, 2, 3]).file.std.offset = 0 ∧
      (TokioFile.append [1, 2, 3]).readAt 3 [0] 0 1 =
        some (⟨4, ⟨⟨[1, 2, 3], 1, .readAppend⟩, none⟩⟩, .ok 1, [1]) :=
  ⟨rfl, rfl, rfl⟩

/-! ## Files opened for appending

A seek sets `position` to the offset the seek returns, so only an operation that does not seek
carries a gap between the two on; a write after a seek carries it over with its sign flipped,
as `O_APPEND` puts the bytes at the end and not where the seek went. The gap therefore stays
`0` or the length `TokioFile::append` opened the file with, either way. -/

namespace TokioFile

/-- How far `position` runs ahead of the offset. -/
def drift (t : TokioFile) : Int := t.position - t.file.std.offset

/-- A seek that succeeds either was not needed, or leaves `position` on the offset, at the
position asked for less the drift; the bytes and the mode stay. -/
theorem seekTo_ok {t t' : TokioFile} {position : Nat} (h : t.seekTo position = some (.ok t')) :
    position = t.position ∧ t' = t ∨
      t'.drift = 0 ∧ (t'.position : Int) = position - t.drift ∧
        t'.file.std.contents = t.file.std.contents ∧ t'.file.std.mode = t.file.std.mode := by
  unfold TokioFile.seekTo at h
  dsimp only at h
  split_ifs at h with hrange hdelta
  · right
    unfold File.seekCurrent OsFile.seekCurrent at h
    split_ifs at h with hnonneg
    · simp only [Except.map, Option.some.injEq, Except.ok.injEq] at h
      subst h
      refine ⟨?_, ?_, rfl, rfl⟩ <;> simp only [drift, Int.toNat_of_nonneg hnonneg] <;> omega
    · simp [Except.map] at h
  · simp only [Option.some.injEq, Except.ok.injEq] at h
    exact .inl ⟨by omega, h.symm⟩

/-- `read_at` keeps the drift, or ends it with a seek; the bytes and the mode stay. -/
theorem readAt_drift {t t' : TokioFile} {position : Nat} {buffer : List UInt8} {offset len : Nat}
    {result : Except IoError Nat × List UInt8}
    (h : t.readAt position buffer offset len = some (t', result)) :
    (t'.drift = t.drift ∨ t'.drift = 0) ∧ t'.file.std.contents = t.file.std.contents ∧
      t'.file.std.mode = t.file.std.mode := by
  unfold TokioFile.readAt at h
  cases hs : t.seekTo position with
  | none => simp [hs] at h
  | some r =>
    cases r with
    | error e =>
      simp only [hs, Option.some_bind, Option.some.injEq, Prod.mk.injEq] at h
      obtain ⟨rfl, -⟩ := h
      exact ⟨.inl rfl, rfl, rfl⟩
    | ok t₁ =>
      simp only [hs, Option.some_bind] at h
      split_ifs at h
      simp only [File.read, OsFile.read, Option.some.injEq, Prod.mk.injEq] at h
      obtain ⟨rfl, -⟩ := h
      rcases seekTo_ok hs with ⟨-, rfl⟩ | ⟨hd, -, hc, hm⟩
      · exact ⟨.inl (by simp only [drift]; omega), rfl, rfl⟩
      · exact ⟨.inr (by simp only [drift] at hd ⊢; omega), hc, hm⟩

/-- A `write_at` at the end of a file opened for appending keeps the drift, or ends it with a
seek, when it returns an error it kept; when it writes, it ends the drift if it did not seek and
flips its sign if it did. The mode stays. -/
theorem writeAt_drift {t t' : TokioFile} {position : Nat} {buffer : List UInt8} {offset len : Nat}
    {result : Except IoError Nat × List UInt8} (hmode : t.file.std.mode = .readAppend)
    (hend : position = t.file.std.contents.length)
    (h : t.writeAt position buffer offset len = some (t', result)) :
    (t'.drift = t.drift ∨ t'.drift = 0 ∨ t'.drift = -t.drift) ∧
      t'.file.std.mode = t.file.std.mode := by
  unfold TokioFile.writeAt at h
  cases hs : t.seekTo position with
  | none => simp [hs] at h
  | some r =>
    cases r with
    | error e =>
      simp only [hs, Option.some_bind, Option.some.injEq, Prod.mk.injEq] at h
      obtain ⟨rfl, -⟩ := h
      exact ⟨.inl rfl, rfl⟩
    | ok t₁ =>
      simp only [hs, Option.some_bind] at h
      split_ifs at h with hbuffer
      have hseek := seekTo_ok hs
      have hmode₁ : t₁.file.std.mode = t.file.std.mode := by
        rcases hseek with ⟨-, rfl⟩ | ⟨-, -, -, hm⟩
        · rfl
        · exact hm
      cases herr : t₁.file.lastWriteErr with
      | some e =>
        -- the error a background write kept is returned, and nothing is written
        simp only [File.write, herr, Option.some.injEq, Prod.mk.injEq] at h
        obtain ⟨rfl, -⟩ := h
        refine ⟨?_, hmode₁⟩
        rcases hseek with ⟨-, rfl⟩ | ⟨hd, -⟩
        · exact .inl rfl
        · exact .inr (.inl hd)
      | none =>
        have hn : ((((buffer.drop offset).take len).take
            (min ((buffer.drop offset).take len).length maxBufSize))).length =
            min ((buffer.drop offset).take len).length maxBufSize := by
          simp only [List.length_take]
          omega
        simp only [File.write, herr, OsFile.write, hmode₁, hmode, Option.some.injEq,
          Prod.mk.injEq] at h
        obtain ⟨rfl, -⟩ := h
        refine ⟨?_, hmode.symm⟩
        simp only [drift, hn]
        rcases hseek with ⟨hpos, rfl⟩ | ⟨-, hp, hc, -⟩
        · -- no seek: `position` was the end, where the bytes go
          exact .inr (.inl (by omega))
        · -- the seek went back by the drift, but the bytes go at the end
          rw [hc]
          simp only [drift] at hp ⊢
          exact .inr (.inr (by omega))

/-- On a file opened for appending, every allowed operation keeps the drift, ends it, or flips
its sign, and keeps the mode. -/
theorem step_drift {t t' : TokioFile} {op : FileOp} (hmode : t.file.std.mode = .readAppend)
    (hop : t.Allowed op) (hs : t.step op = some t') :
    (t'.drift = t.drift ∨ t'.drift = 0 ∨ t'.drift = -t.drift) ∧
      t'.file.std.mode = t.file.std.mode := by
  cases op with
  | readAt position buffer offset len =>
    obtain ⟨⟨t'', result⟩, hread, rfl⟩ := Option.map_eq_some'.mp hs
    obtain ⟨hd, -, hm⟩ := readAt_drift hread
    exact ⟨hd.imp_right .inl, hm⟩
  | writeAt position buffer offset len =>
    obtain ⟨⟨t'', result⟩, hwrite, rfl⟩ := Option.map_eq_some'.mp hs
    exact writeAt_drift hmode hop.2 hwrite

end TokioFile

/-- From a file `TokioFile::append` opened on `contents`, `position` is the offset, or off from
it by exactly the length `contents` had, either way, whatever allowed operations ran. A file
`append` creates (or finds empty) therefore stays synced, and every `read_at` on it returns the
file's bytes from the position asked for, at most `len` and `maxBufSize` of them, in the buffer
from `offset` on. -/
theorem append_drift_is_opening_length {contents : List UInt8} {t : TokioFile}
    (h : Reaches (TokioFile.append contents) t) :
    (t.drift = 0 ∨ t.drift = contents.length ∨ t.drift = -contents.length) ∧
      (contents = [] → ∀ {position : Nat} {buffer : List UInt8} {offset len : Nat}
        {t' : TokioFile} {result : Except IoError Nat × List UInt8},
        t.readAt position buffer offset len = some (t', result) →
        result = (.ok ((t.file.std.contents.drop position).take (min len maxBufSize)).length,
          buffer.take offset ++ (t.file.std.contents.drop position).take (min len maxBufSize) ++
            buffer.drop
              (offset + ((t.file.std.contents.drop position).take (min len maxBufSize)).length))) := by
  have hrun : (t.drift = 0 ∨ t.drift = contents.length ∨ t.drift = -contents.length) ∧
      t.file.std.mode = .readAppend := by
    induction h with
    | refl => exact ⟨.inr (.inl (by simp [TokioFile.drift, TokioFile.append])), rfl⟩
    | step _ hop hs ih =>
      obtain ⟨hd, hm⟩ := TokioFile.step_drift ih.2 hop hs
      exact ⟨by rcases hd with hd | hd | hd <;> rw [hd] <;> omega, hm.trans ih.2⟩
  refine ⟨hrun.1, fun hnil _ _ _ _ _ _ hread => ?_⟩
  have hsynced : t.Synced := by
    have hdrift := hrun.1
    subst hnil
    simp only [TokioFile.drift, List.length_nil, Nat.cast_zero, neg_zero, or_self] at hdrift
    exact show t.position = t.file.std.offset by omega
  exact (hsynced.readAt hread).2.2

/-- `read_at(3)` right after `TokioFile::append` on three bytes: `position` ends three ahead of
the offset. -/
theorem appendThenRead_drift_three :
    Reaches (TokioFile.append [1, 2, 3]) ⟨4, ⟨⟨[1, 2, 3], 1, .readAppend⟩, none⟩⟩ ∧
      (TokioFile.drift ⟨4, ⟨⟨[1, 2, 3], 1, .readAppend⟩, none⟩⟩ = 0 ∨
        TokioFile.drift ⟨4, ⟨⟨[1, 2, 3], 1, .readAppend⟩, none⟩⟩ = 3 ∨
        TokioFile.drift ⟨4, ⟨⟨[1, 2, 3], 1, .readAppend⟩, none⟩⟩ = -3) :=
  have hr : Reaches (TokioFile.append [1, 2, 3]) ⟨4, ⟨⟨[1, 2, 3], 1, .readAppend⟩, none⟩⟩ :=
    @Reaches.step _ _ _ (.readAt 3 [0] 0 1) .refl (by simp [TokioFile.Allowed]) rfl
  ⟨hr, (append_drift_is_opening_length hr).1⟩

end BonsaiDb.Roots
