import Retarget.Isa.Model
import Retarget.Symbol.Test

/-!
# Symbols that every program has

The name and the version of the instruction set, the symbols that it defines, and those of the
command line, in this order.
-/

namespace Retarget.Isa

/-- The symbols for the instruction set itself. -/
def languageSymbols (isa : Isa) : List (String × Option String) :=
  let v := isa.versionNumbers
  [(languageName, some isa.name), (languageVersion, some isa.version),
    ("__LANGUAGE_VERSION_MAJOR__", some (toString v.major)),
    ("__LANGUAGE_VERSION_MINOR__", some (toString v.minor)),
    ("__LANGUAGE_VERSION_PATCH__", some (toString v.patch))]

/-- The symbols that a program starts with. A definition with an empty text has no text. -/
def symbolTable (isa : Isa) (defines : List (String × String)) : Except Error SymbolTable := do
  let own := SourceLine.synthetic isa.name
  let given := SourceLine.synthetic "command line"
  let add (line : SourceLine) (t : SymbolTable) (s : String × Option String) :
      Except Error SymbolTable :=
    Error.liftAt line (t.define s.1 s.2 line)
  let t ← isa.languageSymbols.foldlM (add own) []
  let t ← (isa.symbols.map fun s => (s.name, s.value)).foldlM (add own) t
  (defines.map fun d => (d.1, if d.2.isEmpty then none else some d.2)).foldlM (add given) t

end Retarget.Isa
