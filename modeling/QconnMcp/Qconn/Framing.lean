import QconnMcp.Kit.Numeral
import QconnMcp.Kit.Pattern
import QconnMcp.Kit.Peer

/-!
# The framed connection of the qconn client

`frameConn` of `internal/qconn/framing.go`: the telnet filter under every text
read, the prompt-synchronised read, the status-line read and the raw binary
read, with the line helpers the client applies to a response block.

The connection holds the bytes the reader can get before its deadline expires
(`inp`) and the error a read reports after them (`fin`). `bufio.Reader` shows
through in one place only: after a prompt the code drops blanks that are
*already buffered*, so how many bytes are buffered at each such look is part of
the state (`buffered`). The `telnet` switch of the source is set when the
connection is made and never cleared, so the filter is always on here.
-/

namespace QconnMcp.Qconn

open Kit

/-! ## Telnet -/

def iac : UInt8 := 255
def dont : UInt8 := 254
def doo : UInt8 := 253
def wont : UInt8 := 252
def will : UInt8 := 251
def sb : UInt8 := 250
def se : UInt8 := 240

/-- The low-level connection. `replies` are the telnet answers written back and
`promptsRead` counts the prompts consumed. -/
structure FrameConn where
  inp : Bytes
  fin : IoErr
  /-- Successive values of `br.Buffered()` when the reader looks for blanks. -/
  buffered : List Nat
  replies : Bytes
  promptsRead : Nat
  deriving DecidableEq, Repr

/-- Skip a subnegotiation up to `IAC SE`; `none` when the input ends first. -/
def skipSb : Bytes → Option Bytes
  | [] => none
  | [_] => none
  | b :: n :: rest =>
      if b = iac then if n = se then some rest else skipSb rest
      else skipSb (n :: rest)

/-- `handleIAC`: one telnet command after an `IAC` byte. Gives the input behind
it and the refusal written back; `none` when the input ends inside it. -/
def handleIac : Bytes → Option (Bytes × Bytes)
  | [] => none
  | cmd :: rest =>
      if cmd = iac then some (rest, [])
      else if cmd = doo ∨ cmd = dont ∨ cmd = will ∨ cmd = wont then
        match rest with
        | [] => none
        | opt :: rest =>
            some (rest,
              if cmd = doo then [iac, wont, opt]
              else if cmd = will then [iac, dont, opt]
              else [])
      else if cmd = sb then (skipSb rest).map fun rest => (rest, [])
      else some (rest, [])

/-- The loop of `readByte` on the raw input: the data byte (`none` at the end
of the input), the input behind it, and the telnet answers on the way. -/
def readByteFrom : Nat → Bytes → Option UInt8 × Bytes × Bytes
  | 0, u => (none, u, [])
  | _ + 1, [] => (none, [], [])
  | fuel + 1, b :: rest =>
      if b = iac then
        match handleIac rest with
        | none => (none, [], [])
        | some (rest, r) =>
            let t := readByteFrom fuel rest
            (t.1, t.2.1, r ++ t.2.2)
      else (some b, rest, [])

namespace FrameConn

/-- Put the connection behind raw input that has been read. -/
def advance (f : FrameConn) (v r : Bytes) : FrameConn :=
  { f with inp := v, replies := f.replies ++ r }

/-- `readByte`. Every turn of its loop takes at least one byte, so the length of
the input bounds the turns. -/
def readByte (f : FrameConn) : Option UInt8 × FrameConn :=
  let t := readByteFrom f.inp.length f.inp
  (t.1, f.advance t.2.1 t.2.2)

/-- `readByte` again and again until it reports the end of the input: the data
bytes delivered, at most `n` of them. -/
def readToEndFrom : Nat → FrameConn → Bytes × FrameConn
  | 0, f => ([], f)
  | n + 1, f =>
      match f.readByte with
      | (none, f) => ([], f)
      | (some b, f) =>
          let t := readToEndFrom n f
          (b :: t.1, t.2)

/-- All the data of the input. A byte is delivered for at least one byte read. -/
def readToEnd (f : FrameConn) : Bytes × FrameConn := f.readToEndFrom (f.inp.length + 1)

end FrameConn

/-- The inner loop of `stripIAC`: on to the first `IAC` with `SE` right behind it. -/
def stripSb : Bytes → Bytes
  | [] => []
  | b :: rest => if b = iac ∧ rest.head? = some se then b :: rest else stripSb rest

/-- The loop of `stripIAC`, on the slice from index `i` on. -/
def stripIacFrom : Nat → Bytes → Bytes
  | 0, _ => []
  | _ + 1, [] => []
  | fuel + 1, b :: rest =>
      if b ≠ iac then b :: stripIacFrom fuel rest
      else
        match rest with
        | [] => []
        | cmd :: rest =>
            if cmd = doo ∨ cmd = dont ∨ cmd = will ∨ cmd = wont then
              stripIacFrom fuel (rest.drop 1)
            else if cmd = sb then stripIacFrom fuel ((stripSb rest).drop 2)
            else stripIacFrom fuel rest

/-- `stripIAC`: the application data of a raw byte slice. -/
def stripIac (b : Bytes) : Bytes := stripIacFrom b.length b

/-! ## Prompts -/

/-- The service names of `promptRe`, in its order. -/
def serviceNames : List Bytes :=
  [ascii "broker", ascii "launcher", ascii "file", ascii "cntl", ascii "sinfo"]

/-- `\s` of the regular expressions. -/
def isReSpace (b : UInt8) : Bool := b == 9 || b == 10 || b == 12 || b == 13 || b == 32

/-- `<qconn-(broker|launcher|file|cntl|sinfo)>\s*$`. -/
def promptRe : Pattern :=
  [lit "<qconn-", group (.word serviceNames), lit ">", skip (.run 0 isReSpace), skip .done]

/-- The blanks and tabs dropped after a prompt, at most `n` of them. -/
def swallowBlanks : Nat → Bytes → Bytes
  | n + 1, b :: rest => if b = 32 ∨ b = 9 then swallowBlanks n rest else b :: rest
  | _, s => s

namespace FrameConn

/-- Consume already-buffered blanks behind a prompt. -/
def swallow (f : FrameConn) : FrameConn :=
  { f with inp := swallowBlanks (f.buffered.headD 0) f.inp, buffered := f.buffered.tail }

/-- The loop of `readUntilPrompt`; `acc` is the builder, `scan` the index from
which the pattern is tried again. -/
def readUntilPromptFrom : Nat → Bytes → Nat → FrameConn → (Bytes × Option IoErr) × FrameConn
  | 0, acc, _, f => ((acc, some f.fin), f)
  | fuel + 1, acc, scan, f =>
      match f.readByte with
      | (none, f) =>
          if f.fin = .eof ∧ 0 < acc.length then ((acc, none), f) else ((acc, some f.fin), f)
      | (some b, f) =>
          let acc := acc ++ [b]
          -- the pattern is tried after `>`, blank and LF only
          if b = 62 ∨ b = 32 ∨ b = 10 then
            match promptRe.index (acc.drop scan) with
            | some i =>
                ((trimLeft (· == 32) (acc.take (scan + i)), none),
                  { f with promptsRead := f.promptsRead + 1 }.swallow)
            | none =>
                readUntilPromptFrom fuel acc (if 256 < acc.length then acc.length - 64 else scan) f
          else readUntilPromptFrom fuel acc scan f

/-- `readUntilPrompt`: the text before the next prompt. -/
def readUntilPrompt (f : FrameConn) : (Bytes × Option IoErr) × FrameConn :=
  f.readUntilPromptFrom (f.inp.length + 1) [] 0

/-- `readN`: exactly `n` raw bytes, past the telnet filter. A short read leaves
the tail of the buffer zero. A count that `make` has no memory for, on which the source
panics, is a short read here. -/
def readN (n : Nat) (f : FrameConn) : (Bytes × Option IoErr) × FrameConn :=
  if n ≤ f.inp.length then ((f.inp.take n, none), { f with inp := f.inp.drop n })
  else
    ((f.inp ++ List.replicate (n - f.inp.length) 0,
        some (if f.fin = .eof ∧ f.inp ≠ [] then .unexpectedEof else f.fin)),
      { f with inp := [] })

/-- The loop of `readResponseLine`. -/
def readResponseLineFrom : Nat → Bytes → FrameConn → (Bytes × Option IoErr) × FrameConn
  | 0, acc, f => ((acc, some f.fin), f)
  | fuel + 1, acc, f =>
      match f.readByte with
      | (none, f) => ((acc, some f.fin), f)
      | (some b, f) =>
          if b = 10 then ((trimLeft (· == 32) (trimRight (· == 13) acc), none), f)
          else readResponseLineFrom fuel (acc ++ [b]) f

/-- `readResponseLine`: one LF-terminated line, CR-trimmed. -/
def readResponseLine (f : FrameConn) : (Bytes × Option IoErr) × FrameConn :=
  f.readResponseLineFrom (f.inp.length + 1) []

end FrameConn

/-! ## Lines of a response block -/

/-- The line qconn emits once because the client refuses LINEMODE and ECHO. -/
def benignNoise : Bytes := ascii "error linemode-or-echo-not-supported"

def isNoise (ln : Bytes) : Bool := trimSpace ln == [] || trimSpace ln == benignNoise

/-- `splitLines`: the lines of a block without CRs and noise. -/
def splitLines (s : Bytes) : List Bytes :=
  ((s.splitOn 10).map (trimRight (· == 13))).filter fun ln => !isNoise ln

/-- `firstLine`: the first meaningful line, empty when there is none. -/
def firstLine (s : Bytes) : Bytes :=
  (((s.splitOn 10).map (trimRight (· == 13))).find? fun ln => !isNoise ln).getD []

end QconnMcp.Qconn
