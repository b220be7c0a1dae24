namespace Restack.Text

def codePage437 : String :=
  "ÇüéâäàåçêëèïîìÄÅÉæÆôöòûùÿÖÜ¢£¥₧ƒáíóúñÑªº¿⌐¬½¼¡«»░▒▓│┤╡╢╖╕╣║╗╝╜╛┐" ++
  "└┴┬├─┼╞╟╚╔╩╦╠═╬╧╨╤╥╙╘╒╓╫╪┘┌█▄▌▐▀αßΓπΣσµτΦΘΩδ∞φε∩≡±≥≤⌠⌡÷≈°∙·√ⁿ²■ "

def decodeCodePage (bytes : List UInt8) : String :=
  String.ofList (bytes.map fun b =>
    if b.toNat < 128 then Char.ofNat b.toNat else codePage437.toList.getD (b.toNat - 128) '?')

end Restack.Text
