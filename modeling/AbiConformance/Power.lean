attribute [instance (20000)] instPowNat
attribute [default_instance 20000] instPowNat
