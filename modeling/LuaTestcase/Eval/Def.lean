import LuaTestcase.Lua.Value
import LuaTestcase.Trim

/-!
# `testcase.eval`

`lib/eval.lua`: the rewriting of a source text with the inline option, and the loading of a file.
`parse_inlineopt` works on positions in the text, and the model does the same; that it works line
by line is proved later.  Its loop advances the position by at least one byte each time, so the
length of the text is enough fuel.

A Lua value that `loadfile` or `load` returns is a chunk: the name its functions report as their
source, and a body that is opaque.
-/

namespace Testcase

/-! ## Patterns -/

/-- `'\r*\n'`. -/
def CRLF : Pattern := ⟨(· == '\r'), .star⟩ :: literal ['\n']

/-- `'^%s*[-]+%s*lua[-]testcase:%s*'`, without the anchor. -/
def INLINE_OPT : Pattern :=
  spaces ++ [⟨(· == '-'), .plus⟩] ++ spaces ++ literal "lua-testcase:".toList ++ spaces

/-- `'^%s*local%s+testcase%s*=%s*\x7b%s*\x7d'`, without the anchor. -/
def PLACEHOLDER : Pattern :=
  spaces ++ literal "local".toList ++ spaces1 ++ literal "testcase".toList ++ spaces ++
    literal ['='] ++ spaces ++ literal ['\x7b'] ++ spaces ++ literal ['\x7d']

/-- `INLINE_CODE`. -/
def INLINE_CODE : Str := "local testcase = require('testcase')".toList

/-- `VALID_OPTVAL[optval]`. -/
def VALID_OPTVAL (optval : Str) : Option Bool :=
  if optval = "true".toList then some true
  else if optval = "false".toList then some false
  else none

/-! ## `checkline` -/

/-- The errors of `parse_inlineopt`, with the values that are formatted into their texts. -/
inductive InlineError where
  | einval (optval : Str) (lineno : Nat)
  | ealready (lineno defline : Nat)
  | enocode (lineno : Nat)
deriving DecidableEq

/-- `EINVAL`, `EALREADY` and `ENOCODE`. -/
def InlineError.format : InlineError → Str
  | einval _ _ => "invalid inline option `lua-testcase` value: %q at lineno:%d".toList
  | ealready _ _ => ("invalid inline option `lua-testcase` at lineno:%d: " ++
      "its already defined in lineno:%d").toList
  | enocode _ => ("inline option `lua-testcase` is defined at lineno:%d, " ++
      "but the placeholder `local testcase = \x7b\x7d` is " ++
      "not declared at the next line").toList

/-- The table `ctx`. -/
structure Ctx where
  chknext : Bool
  defline : Option Nat
  decl : Option (Nat × Nat)
deriving DecidableEq

/-- The part of `checkline` behind the value of an option. -/
def checkOption (ctx : Ctx) (optval : Str) (lineno : Nat) : Except InlineError Ctx :=
  match VALID_OPTVAL optval with
  | none => .error (.einval optval lineno)
  | some ok =>
      match ctx.defline with
      | some defline => .error (.ealready lineno defline)
      | none => if ok then .ok { ctx with chknext := true, defline := some lineno } else .ok ctx

/-- `checkline(ctx, line, lineno, head, tail)`: the table afterwards, or the error raised. -/
def checkline (ctx : Ctx) (line : Str) (lineno head tail : Nat) : Except InlineError Ctx :=
  if ctx.chknext then
    match findHead line PLACEHOLDER with
    | none => .error (.enocode lineno)
    | some _ => .ok { ctx with chknext := false, decl := some (head, tail) }
  else
    match findHead line INLINE_OPT with
    | none => .ok ctx
    | some opt_tail => checkOption ctx (trimSpace (sub line (opt_tail + 1) (-1))) lineno

/-! ## `parse_inlineopt` -/

/-- The local variables of `parse_inlineopt`. -/
structure Scanner where
  pos : Nat
  lineno : Nat
  ctx : Ctx

/-- The loop of `parse_inlineopt`; `none` if the fuel runs out. -/
def scanLines (s : Str) : Nat → Scanner → Option (Except InlineError Scanner)
  | 0, _ => none
  | fuel + 1, st =>
      match find s CRLF st.pos with
      | none => some (.ok st)
      | some (head, tail) =>
          match checkline st.ctx (sub s st.pos (head - 1)) (st.lineno + 1) st.pos (head - 1) with
          | .error err => some (.error err)
          | .ok ctx => scanLines s fuel ⟨tail + 1, st.lineno + 1, ctx⟩

/-- The line behind the loop. -/
def scanLast (s : Str) (st : Scanner) : Except InlineError Scanner :=
  if st.pos < s.length then do
    let ctx ← checkline st.ctx (sub s st.pos (-1)) (st.lineno + 1) st.pos s.length
    pure { st with lineno := st.lineno + 1, ctx := ctx }
  else pure st

/-- What is made of the text. -/
def rewrite (s : Str) (st : Scanner) : Except InlineError (Option Str) :=
  match st.ctx.decl with
  | some (head, tail) =>
      .ok (some (sub s 1 (head - 1) ++ INLINE_CODE ++ sub s (tail + 1) (-1)))
  | none => if st.ctx.chknext then .error (.enocode st.lineno) else .ok none

/-- `parse_inlineopt(s)`: the string or `nil`, or the error raised. -/
def parseInlineopt (s : Str) : Option (Except InlineError (Option Str)) :=
  (scanLines s (s.length + 1) ⟨1, 0, ⟨false, none, none⟩⟩).map fun res => do
    let st ← res
    let st ← scanLast s st
    rewrite s st

/-! ## `eval` -/

/-- What `loadfile` and `load` return: the source that the functions of the chunk report, and the
body. -/
structure Chunk (B : Type) where
  source : Str
  body : B

/-- What `eval` calls.  `readfile` is `readfile` of the module under `pcall`, `compilefile` and
`compile` are the compiler behind `loadfile` and `load`, and `xpcall` runs a chunk. -/
structure Loader (W B F U : Type) where
  readfile : Str → W → Except (Value F U) Str
  compilefile : Str → W → Except (Value F U) B
  compile : Str → Except (Value F U) B
  inlineError : InlineError → Value F U
  xpcall : Chunk B → W → Except (Value F U) Unit × W

section Eval

variable {W B F U : Type}

/-- `loadfile(filename, 't')`, which records `@` and the filename. -/
def Loader.loadfile (lua : Loader W B F U) (filename : Str) (w : W) :
    Except (Value F U) (Chunk B) :=
  (lua.compilefile filename w).map fun body => ⟨'@' :: filename, body⟩

/-- `LOADCHUNK(s, chunkname)`, which records the chunk name. -/
def Loader.load (lua : Loader W B F U) (s chunkname : Str) : Except (Value F U) (Chunk B) :=
  (lua.compile s).map fun body => ⟨chunkname, body⟩

/-- The suffix of the files that are loaded as they are. -/
def testSuffix : Str := "_test.lua".toList

/-- The part of `eval` before the call: the chunk, if there is one to call, or the error that is
returned.  `none` if the fuel of `parse_inlineopt` runs out. -/
def loadChunk (lua : Loader W B F U) (filename : Str) (w : W) :
    Option (Except (Value F U) (Option (Chunk B))) :=
  if sub filename (-testSuffix.length) (-1) = testSuffix then
    some ((lua.loadfile filename w).map some)
  else
    match lua.readfile filename w with
    | .error err => some (.error err)
    | .ok s =>
        (parseInlineopt s).map fun res =>
          match res with
          | .error err => .error (lua.inlineError err)
          | .ok none => .ok none
          | .ok (some s) => (lua.load s filename).map some

/-- `eval(filename)`. -/
def eval (lua : Loader W B F U) (filename : Str) (w : W) :
    Option (Except (Value F U) Unit × W) :=
  (loadChunk lua filename w).map fun res =>
    match res with
    | .error err => (.error err, w)
    | .ok none => (.ok (), w)
    | .ok (some func) => lua.xpcall func w

end Eval

end Testcase
