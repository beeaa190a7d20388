import CalcCycle.Text.Hex
import CalcCycle.Text.Hidden

/-! Strings in quotes for messages, where every character can be seen. -/

namespace CalcCycle.Quoted

def escape (c : Char) : List Char :=
  match c with
  | '"' => ['\\', '"']
  | '\\' => ['\\', '\\']
  | '\n' => ['\\', 'n']
  | '\r' => ['\\', 'r']
  | '\t' => ['\\', 't']
  | '\x00' => ['\\', '0']
  | c =>
    if isHidden c then '\\' :: 'u' :: '{' :: (Hex.plain c.toNat ++ ['}'])
    else [c]

def quote (s : String) : String := String.ofList ('"' :: (s.toList.flatMap escape ++ ['"']))

end CalcCycle.Quoted
