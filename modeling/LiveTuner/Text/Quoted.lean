import LiveTuner.Text.Unprintable

/-!
# Quoted texts

A text inside a message is put between double quotes. Quotes, backslashes, line ends and tabs in it
are escaped, and a character without a picture of its own is spelled by its number, so that the
reader sees exactly what the text holds.

## Main definitions

* `quotedChar` — how a character stands in a quoted text
* `quoted` — the text between quotes
-/

namespace LiveTuner

/-- How a character stands in a quoted text. -/
def quotedChar (c : Char) : List Char :=
  if c = '\x00' then ['\\', '0']
  else if c = '\t' then ['\\', 't']
  else if c = '\r' then ['\\', 'r']
  else if c = '\n' then ['\\', 'n']
  else if c = '"' then ['\\', '"']
  else if c = '\\' then ['\\', '\\']
  else if isUnprintable c then
    ['\\', 'u', '\x7b'] ++ Nat.toDigits 16 c.toNat ++ ['\x7d']
  else [c]

/-- The text between double quotes, escaped. -/
def quoted (text : String) : String :=
  String.ofList ('"' :: text.toList.flatMap quotedChar ++ ['"'])

example : quotedChar '\x1b' = "\\u\x7b1b\x7d".toList := by decide

end LiveTuner
