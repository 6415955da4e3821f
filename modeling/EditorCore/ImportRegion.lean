import EditorCore.Document

/-!
# The import region

A source file opens with its module header and its imports. The region
they take ends at the first line that starts a declaration of another
kind. Only a token in column 0 starts a declaration: blank lines, comment
lines and indented lines belong to whatever came before them, and a buffer
without any further declaration is all region.
-/

namespace EditorCore

namespace LineToken

/-- **A line opens the header or an import** when its significant tokens
begin with `import` or `module`, or with `port` or `effect` followed by
`module`. -/
def startsHeader : List LineToken → Bool
  | [] => false
  | first :: rest =>
    match first.kind with
    | .kwImport | .kwModule => true
    | .kwPort => rest.head?.any (·.kind = .kwModule)
    | .lowerIdent =>
      first.text = "effect".toList && rest.head?.any (·.kind = .kwModule)
    | _ => false

/-- A line ends the region when a declaration starts there that is neither
header nor import. -/
def endsImports (tokens : List LineToken) : Bool :=
  let significant := tokens.filter (!·.kind.isTrivia)
  match significant with
  | [] => false
  | first :: _ => first.start = 0 && !startsHeader significant

end LineToken

namespace Document

/-- **The first line after the import region**, or the line count. -/
def importRegionEnd (d : Document) : UInt32 :=
  .ofNat ((d.tokens.findIdx? LineToken.endsImports).getD d.lines.length)

end Document

end EditorCore
