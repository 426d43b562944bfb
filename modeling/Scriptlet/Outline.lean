/-!
# Outlines

A value as a tree of its parts.  An outline is written with each part on lines of its own,
indented below what it is a part of and followed by a comma.
-/

namespace Scriptlet

/-- A value as a tree of its parts. -/
inductive Outline where
  /-- A value without parts. -/
  | leaf (text : String)
  /-- A value with labelled parts between an opening and a closing text. -/
  | node (opening closing : String) (parts : List (String × Outline))

namespace Outline

/-- A value with named parts. -/
def record (name : String) (fields : List (String × Outline)) : Outline :=
  .node (name ++ " \x7b") "\x7d" (fields.map fun (label, part) => (label ++ ": ", part))

/-- A value with parts that have no names. -/
def tuple (name : String) (parts : List Outline) : Outline :=
  .node (name ++ "(") ")" (parts.map ("", ·))

/-- A list of values. -/
def list (items : List Outline) : Outline :=
  .node "[" "]" (items.map ("", ·))

/-- A value that may be missing. -/
def option : Option Outline → Outline
  | none => .leaf "None"
  | some part => .tuple "Some" [part]

mutual

/-- The written form of an outline, of which all lines but the first start with `indent`. -/
def write (indent : String) : Outline → String
  | leaf text => text
  | node opening closing [] => opening ++ closing
  | node opening closing (part :: parts) =>
    opening ++ "\n" ++ writeParts (indent ++ "    ") (part :: parts) ++ indent ++ closing

/-- The written form of labelled parts, of which all lines start with `indent`. -/
def writeParts (indent : String) : List (String × Outline) → String
  | [] => ""
  | (label, part) :: rest =>
    indent ++ label ++ write indent part ++ ",\n" ++ writeParts indent rest

end

/-- The written form of an outline. -/
def text (outline : Outline) : String :=
  outline.write ""

end Outline

end Scriptlet
