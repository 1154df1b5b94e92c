namespace AbiConformance

def upperCaseOffset : UInt8 := 32

def shiftToUpper (text : List UInt8) : List UInt8 := text.map (· - upperCaseOffset)

def shiftHistory (text : List UInt8) : Nat → List (List UInt8)
  | 0 => []
  | times + 1 => shiftToUpper text :: shiftHistory (shiftToUpper text) times

@[simp] theorem length_shiftToUpper (text : List UInt8) :
    (shiftToUpper text).length = text.length :=
  List.length_map ..

end AbiConformance
