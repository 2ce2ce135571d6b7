import AnnotationScene.Text.Quoted

/-!
# Inspected values

The text of a value for diagnostics: lists, sets, tables and records with their parts named.
Texts inside are quoted.
-/

namespace AnnotationScene.Text

def commas (parts : List String) : String := ", ".intercalate parts

def inspectList (parts : List String) : String := "[" ++ commas parts ++ "]"

def inspectSet (parts : List String) : String := "\x7b" ++ commas parts ++ "\x7d"

def inspectTable (entries : List (String × String)) : String :=
  inspectSet (entries.map fun (key, value) => key ++ ": " ++ value)

def inspectCase (name content : String) : String := name ++ "(" ++ content ++ ")"

def inspectRecord (name : String) (fields : List (String × String)) : String :=
  name ++ " \x7b " ++ commas (fields.map fun (field, value) => field ++ ": " ++ value) ++ " \x7d"

def inspectOption {α : Type} (inspect : α → String) : Option α → String
  | some a => inspectCase "Some" (inspect a)
  | none => "None"

def inspectTexts (texts : List String) : String := inspectList (texts.map quote)

end AnnotationScene.Text
