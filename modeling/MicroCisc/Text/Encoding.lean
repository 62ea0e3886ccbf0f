namespace MicroCisc.Text

def ofBytes? (bytes : List UInt8) : Option String :=
  String.fromUTF8? ⟨bytes.toArray⟩

def toBytes (text : String) : List UInt8 :=
  text.toUTF8.data.toList

end MicroCisc.Text
