import Mathlib.Data.String.Basic
import ZeroNat.Lib.Table
import ZeroNat.Secret

/-!
# The manifest of a release

The text that lists the digest and the size of every artifact of a release: a header with the
version, and a line for every artifact, in the order of their names.  An artifact that was
downloaded is checked against its line, in the pieces the reader gives it in.
-/

namespace ZeroNat.Release

open Config

def manifestHeader : List Char :=
  "zeronat-release-v1".toList

def artifactLimit : ℕ := 268435456

def malformed : String :=
  "the release manifest is malformed"

structure ReleaseManifest where
  version : String
  entries : Table String (Bytes 32 × ℕ)

/-! ### Parsing -/

/-- A part of a version: a number without a zero in front. -/
def numeric (part : List Char) : Bool :=
  part ≠ [] ∧ part.all Char.isDigit ∧ (part.length = 1 ∨ part.head? ≠ some '0')

def versionOk (version : List Char) : Bool :=
  match version.splitOn '.' with
  | [major, minor, patch] => numeric major && numeric minor && numeric patch
  | _ => false

/-- A letter, a digit or a mark that may stand in the name of an artifact. -/
def nameByte (c : Char) : Bool :=
  c.isAlphanum || c ∈ ['.', '_', '-']

/-- The name, the digest and the size in a line. -/
def parseLine (line : List Char) : Except String (String × Bytes 32 × ℕ) :=
  match line.splitOn ' ' with
  | [digest, size, name] =>
      match Secret.decode (String.ofList digest) with
      | .error _ => .error malformed
      | .ok digest =>
          if 1 < size.length ∧ size.head? = some '0' then .error malformed
          else
            match parseDecimal (2 ^ 64) size with
            | none => .error malformed
            | some size =>
                if size = 0 ∨ artifactLimit < size then .error malformed
                else if name = [] ∨ ¬ name.all nameByte then .error malformed
                else .ok (String.ofList name, digest, size)
  | _ => .error malformed

/-- The loop over the lines.  The names have to ascend. -/
def parseLines (previous : Option String) (entries : Table String (Bytes 32 × ℕ)) :
    List (List Char) → Except String (Table String (Bytes 32 × ℕ))
  | [] => .ok entries
  | line :: lines =>
      match parseLine line with
      | .error e => .error e
      | .ok (name, digest, size) =>
          if ∃ p ∈ previous, name ≤ p then .error malformed
          else parseLines (some name) (entries.insert name (digest, size)) lines

/-- The text without its last character, which has to be a line feed. -/
def stripNewline (text : List Char) : Option (List Char) :=
  if text.getLast? = some '\n' then some text.dropLast else none

def parseHeader (header : List Char) : Option (List Char) :=
  (stripPrefix manifestHeader header).bind (stripPrefix " v".toList)

def parseText (text : List Char) : Except String ReleaseManifest :=
  match stripNewline text with
  | none => .error malformed
  | some body =>
      if '\r' ∈ body then .error malformed
      else
        match body.splitOn '\n' with
        | [] => .error malformed
        | header :: lines =>
            match parseHeader header with
            | none => .error malformed
            | some version =>
                if versionOk version then
                  match parseLines none ∅ lines with
                  | .error e => .error e
                  | .ok entries =>
                      if entries.size = 0 then .error malformed
                      else .ok { version := String.ofList version, entries := entries }
                else .error malformed

def parse (manifest : List UInt8) : Except String ReleaseManifest :=
  match String.fromUTF8? ⟨manifest.toArray⟩ with
  | none => .error malformed
  | some text => parseText text.toList

/-! ### Checking an artifact -/

/-- A hash function that is fed piece by piece.  It gives the digest of everything it was
fed. -/
structure Hasher (σ : Type) where
  new : σ
  update : σ → List UInt8 → σ
  finalize : σ → Bytes 32
  digest : List UInt8 → Bytes 32
  finalize_updates : ∀ chunks : List (List UInt8),
    finalize (chunks.foldl update new) = digest chunks.flatten

/-- What one read gives: some bytes, as many as fit the buffer. -/
abbrev Chunk : Type :=
  { c : List UInt8 // 0 < c.length ∧ c.length ≤ 65536 }

def mismatch (name : String) : String :=
  name ++ " does not match the signed release manifest"

variable {σ : Type} (H : Hasher σ)

/-- The loop over the reads.  After the last one there is nothing left to read. -/
def readLoop (name : String) (state : σ) (remaining : ℕ) :
    List (Except String Chunk) → Except String (σ × ℕ)
  | [] => .ok (state, remaining)
  | .error e :: _ => .error ("failed to read the downloaded artifact: " ++ e)
  | .ok chunk :: reads =>
      if remaining < chunk.val.length then .error (mismatch name)
      else readLoop name (H.update state chunk.val) (remaining - chunk.val.length) reads

/-- Check an artifact against its entry, reading to the end. -/
def ReleaseManifest.verifyArtifact (manifest : ReleaseManifest) (name : String)
    (reads : List (Except String Chunk)) : Except String Unit :=
  match manifest.entries.lookup name with
  | none => .error ("the release manifest has no entry for " ++ name)
  | some (digest, size) =>
      match readLoop H name H.new size reads with
      | .error e => .error e
      | .ok (state, remaining) =>
          if remaining ≠ 0 ∨ H.finalize state ≠ digest then .error (mismatch name)
          else .ok ()

/-- The loop gets through exactly when there are no more bytes than expected. -/
theorem readLoop_ok_iff (name : String) (state : σ) (size : ℕ) (chunks : List Chunk)
    (result : σ × ℕ) :
  readLoop H name state size (chunks.map .ok) = .ok result
    ↔ (chunks.map Subtype.val).flatten.length ≤ size
      ∧ result = ((chunks.map Subtype.val).foldl H.update state,
        size - (chunks.map Subtype.val).flatten.length)
  := by
  induction chunks generalizing state size with
  | nil =>
      rw [List.map_nil, readLoop]
      simp [eq_comm]
  | cons chunk chunks ih =>
      rw [List.map_cons, readLoop]
      split
      · rename_i hlong
        simp only [List.map_cons, List.flatten_cons, List.length_append]
        constructor
        · intro h
          exact absurd h (by simp)
        · rintro ⟨hle, -⟩
          omega
      · rename_i hfit
        rw [ih]
        simp only [List.map_cons, List.flatten_cons, List.length_append, List.foldl_cons]
        rw [Nat.sub_add_eq]
        have hle : ∀ n, n ≤ size - chunk.val.length ↔ chunk.val.length + n ≤ size := by
          intro n
          omega
        rw [hle]

/-- An artifact passes exactly when it is listed and its bytes have the length and the digest
of its entry, in whatever pieces they come. -/
theorem verifyArtifact_ok_iff (manifest : ReleaseManifest) (name : String)
    (chunks : List Chunk) :
  manifest.verifyArtifact H name (chunks.map .ok) = .ok ()
    ↔ manifest.entries.lookup name
      = some (H.digest (chunks.map Subtype.val).flatten,
        (chunks.map Subtype.val).flatten.length)
  := by
  rw [ReleaseManifest.verifyArtifact]
  cases manifest.entries.lookup name with
  | none => simp
  | some entry =>
      obtain ⟨digest, size⟩ := entry
      have hdigest := H.finalize_updates (chunks.map Subtype.val)
      dsimp only
      cases hread : readLoop H name H.new size (chunks.map .ok) with
      | error e =>
          -- Only too many bytes stop the loop.
          have hlong : ¬ (chunks.map Subtype.val).flatten.length ≤ size := by
            intro hle
            have hok := (readLoop_ok_iff H name H.new size chunks _).mpr ⟨hle, rfl⟩
            rw [hread] at hok
            exact absurd hok (by simp)
          simp only [reduceCtorEq, Option.some.injEq, Prod.mk.injEq, false_iff, not_and]
          intro _
          omega
      | ok result =>
          obtain ⟨hle, rfl⟩ := (readLoop_ok_iff H name H.new size chunks result).mp hread
          dsimp only
          rw [hdigest]
          constructor
          · intro h
            split at h
            · exact absurd h (by simp)
            · rename_i hsame
              obtain ⟨hremaining, hfinal⟩ := not_or.mp hsame
              rw [not_not] at hfinal
              have hsize : size = (chunks.map Subtype.val).flatten.length := by omega
              rw [hfinal, ← hsize]
          · intro h
            obtain ⟨rfl, rfl⟩ := Prod.mk.inj (Option.some.inj h)
            rw [if_neg]
            simp

end ZeroNat.Release
