namespace ApiContract

structure Settings where
  defaultScope : String := "common"
  binaryType : String := "Blob"
  validateResponses : Bool := true
  createdShortcut : Bool := true

end ApiContract
