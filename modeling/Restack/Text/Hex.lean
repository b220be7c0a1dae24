namespace Restack.Text

def hex (n : Nat) : String := String.ofList (Nat.toDigits 16 n)

def hexPadded (width n : Nat) : String :=
  let digits := Nat.toDigits 16 n
  String.ofList (List.replicate (width - digits.length) '0' ++ digits)

def offsetText (n : Nat) : String := "0x" ++ hex n

def addressText (n : Nat) : String := "0x" ++ hexPadded 4 n

end Restack.Text
