namespace RecordQuery.Like

def escapeChar : Char := '*'

def isSpecial (c : Char) : Bool := c == '%' || c == '_' || c == escapeChar

def escape : List Char → List Char
  | [] => []
  | c :: rest => if isSpecial c then escapeChar :: c :: escape rest else c :: escape rest

def escapeText (text : String) : String := String.ofList (escape text.toList)

def containing (text : List Char) : List Char := '%' :: (escape text ++ ['%'])

def starting (text : List Char) : List Char := escape text ++ ['%']

end RecordQuery.Like
