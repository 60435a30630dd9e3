import Ddmp.Lib.Machine
import Ddmp.Lib.Dict
import Ddmp.Lib.Lines
import Ddmp.Lib.Base64
import Ddmp.Models.Enums
import Ddmp.Python.Text
import Ddmp.Lib.LittleEndian
import Ddmp.Discovery.AdvertisementTheorems
import Ddmp.Discovery.FollowUpTheorems
import Ddmp.Discovery.TruncationTheorems
import Ddmp.Discovery.AskedTheorems
import Ddmp.Discovery.ProbeTheorems
import Ddmp.Discovery.FindTheorems
import Ddmp.Discovery.RecasingTheorems
import Ddmp.Discovery.QueryTheorems
import Ddmp.Python.Value
import Ddmp.Protocol.LineDecoderTheorems
import Ddmp.Protocol.AddressTheorems
import Ddmp.Protocol.Topics
import Ddmp.Session.AllowListTheorems
import Ddmp.Session.ConfirmTheorems
import Ddmp.Session.PublishTheorems
import Ddmp.Session.SetPointTheorems
import Ddmp.Session.MergeTheorems
import Ddmp.Client.CoolerTheorems
import Ddmp.Client.SyncClientTheorems
import Ddmp.Client.SyncLifecycleTheorems
import Ddmp.Cli.WriteCommandTheorems
import Ddmp.Client.AsyncCloseTheorems
import Ddmp.Client.AsyncEventsTheorems
import Ddmp.Client.AsyncRefusalTheorems
import Ddmp.Client.AsyncStreamTheorems
import Ddmp.Client.AsyncOutboundTheorems
import Ddmp.Client.AsyncShutdownTheorems
import Ddmp.Client.SyncBurstTheorems
import Ddmp.Client.FakeCoolerTheorems
import Ddmp.Client.ReadLoopTheorems
import Ddmp.Client.AsyncAnswerTheorems
import Ddmp.Cli.Command
import Ddmp.Cli.CommandTheorems
import Ddmp.Client.AsyncExchangeTheorems
import Ddmp.Client.SharedClientTheorems
import Ddmp.Session.SameStateTheorems
import Ddmp.Discovery.RespondersTheorems
import Ddmp.Cli.CommandExchange
import Ddmp.Cli.CommandExchangeTheorems
