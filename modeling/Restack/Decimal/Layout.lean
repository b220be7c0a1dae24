import Restack.Decimal.Shortest

namespace Restack.Decimal

structure Layout where
  scientificFrom : Option Int
  scientificBelow : Option Int
  keepsFraction : Bool

-- Constants of code: positional from 1e-4 up to 1e16, always a fraction or an exponent.
def constantLayout : Layout := ⟨some 16, some (-4), true⟩

-- Values of fields and annotations: always positional, no fraction that says nothing.
def valueLayout : Layout := ⟨none, none, false⟩

namespace Layout

def isScientific (l : Layout) (exponent : Int) : Bool :=
  (l.scientificFrom.any fun bound => bound ≤ exponent) || (l.scientificBelow.any fun bound => exponent < bound)

def scientific (d : Digits) : String :=
  let exponent := "e" ++ toString (d.point - 1)
  match d.digits with
  | [] => exponent
  | [lead] => String.ofList [lead] ++ exponent
  | lead :: rest => String.ofList (lead :: '.' :: rest) ++ exponent

def positional (l : Layout) (d : Digits) : String :=
  if d.point ≤ 0 then
    String.ofList ('0' :: '.' :: List.replicate (-d.point).toNat '0' ++ d.digits)
  else
    let whole := d.point.toNat
    if d.digits.length ≤ whole then
      let zeros := List.replicate (whole - d.digits.length) '0'
      String.ofList (d.digits ++ zeros) ++ (if l.keepsFraction then ".0" else "")
    else
      String.ofList (d.digits.take whole ++ '.' :: d.digits.drop whole)

def text (l : Layout) (f : BinaryFormat) (bits : Nat) : String :=
  let sign := if f.isNegative bits then "-" else ""
  match f.magnitude bits with
  | .nan => "NaN"
  | .infinite => sign ++ "inf"
  | .zero => sign ++ (if l.keepsFraction then "0.0" else "0")
  | .finite m q narrowBelow =>
    let d := shortest f m q narrowBelow
    sign ++ (if l.isScientific (d.point - 1) then scientific d else l.positional d)

end Layout

end Restack.Decimal
