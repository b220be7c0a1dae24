import Restack.Text.Hex
import Restack.Text.Printable

namespace Restack.Text

-- Quoted text: characters that would not survive on a printed line are
-- escaped, everything else stands for itself.

def escapeCode (c : Char) : String := "\\u\x7b" ++ hex c.toNat ++ "\x7d"

def escapeChar (mark c : Char) : String :=
  if c = mark then String.ofList ['\\', c]
  else if c = '\\' then "\\\\"
  else if c = '\n' then "\\n"
  else if c = '\r' then "\\r"
  else if c = '\t' then "\\t"
  else if c.toNat = 0 then "\\0"
  else if isPlain c then String.ofList [c]
  else escapeCode c

def doubleQuote : Char := '\x22'

def singleQuote : Char := '\x27'

def quoted (s : String) : String :=
  let body := s.toList.map (escapeChar doubleQuote)
  String.ofList [doubleQuote] ++ String.join body ++ String.ofList [doubleQuote]

def quotedChar (c : Char) : String :=
  String.ofList [singleQuote] ++ escapeChar singleQuote c ++ String.ofList [singleQuote]

end Restack.Text
