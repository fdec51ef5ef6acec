import TreeParty.Text.Printable
/-!
# Quoted text

Text in quotes as log lines show it. Apostrophes enclose it, unless it holds an apostrophe and no
double quote. The enclosing quote, the backslash and characters that do not print are escaped.
-/

namespace TreeParty
namespace Text

def hexadecimal (width n : Nat) : String :=
  let figures := Nat.toDigits 16 n
  String.ofList (List.replicate (width - figures.length) '0' ++ figures)

def escape (quote c : Char) : String :=
  if c = quote || c = '\\' then String.ofList ['\\', c]
  else if c = '\n' then "\\n"
  else if c = '\r' then "\\r"
  else if c = '\t' then "\\t"
  else if isPrintable c then c.toString
  else if c.toNat < 0x100 then "\\x" ++ hexadecimal 2 c.toNat
  else if c.toNat < 0x10000 then "\\u" ++ hexadecimal 4 c.toNat
  else "\\U" ++ hexadecimal 8 c.toNat

def quoteFor (text : String) : Char :=
  if text.toList.contains '\'' && !text.toList.contains '"' then '"' else '\''

def quoted (text : String) : String :=
  let quote := quoteFor text
  quote.toString ++ String.join (text.toList.map (escape quote)) ++ quote.toString

end Text
end TreeParty
