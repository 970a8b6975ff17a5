import Clboss.AmountArithProofs
import Clboss.AmountOptionProofs
import Clboss.AmountProofs
import Clboss.AmountSettingsProofs
import Clboss.AmountTextProofs
import Clboss.AmountValidateProofs
import Clboss.AwaitProofs
import Clboss.BalanceModderProofs
import Clboss.Bech32Proofs
import Clboss.BinaryHeapProofs
import Clboss.BitGroupProofs
import Clboss.BucketProofs
import Clboss.ByteFormatProofs
import Clboss.ByteStreamProofs
import Clboss.CallbackRunProofs
import Clboss.CarpenterProofs
import Clboss.ChannelCandidatesProofs
import Clboss.ChannelCreationDeciderProofs
import Clboss.ChannelCreatorProofs
import Clboss.ChannelMonitorProofs
import Clboss.ChannelPlannerProofs
import Clboss.ChanneledPeersProofs
import Clboss.ClaimTxProofs
import Clboss.ClaimWeightProofs
import Clboss.CommandReceiverProofs
import Clboss.ComplaintsDeskProofs
import Clboss.CreationAnswersProofs
import Clboss.CreationPipelineProofs
import Clboss.DecimalProofs
import Clboss.DijkstraCopyProofs
import Clboss.DijkstraPathsProofs
import Clboss.DijkstraProofs
import Clboss.DoubleProofs
import Clboss.DowserProofs
import Clboss.EarningsMigrationProofs
import Clboss.EarningsTrackerProofs
import Clboss.EvIoLawProofs
import Clboss.EvIoProofs
import Clboss.EvMapProofs
import Clboss.ExempterProofs
import Clboss.GuardProofs
import Clboss.GumshoeProofs
import Clboss.HtlcAcceptorProofs
import Clboss.JsmnDatumProofs
import Clboss.JsmnEqualProofs
import Clboss.JsmnHandleProofs
import Clboss.JsmnJsonProofs
import Clboss.JsmnNavigationProofs
import Clboss.JsmnObjectProofs
import Clboss.JsmnPrintProofs
import Clboss.JsmnProofs
import Clboss.JsmnRunProofs
import Clboss.JsmnStreamProofs
import Clboss.JsmnStringProofs
import Clboss.JsmnTreeProofs
import Clboss.JsmnValueProofs
import Clboss.JsmnWidthProofs
import Clboss.JsonNumberProofs
import Clboss.JsonOutProofs
import Clboss.JsonProofs
import Clboss.JsonRoundTripProofs
import Clboss.LatchProofs
import Clboss.LinkedTableProofs
import Clboss.LittleEndianProofs
import Clboss.LockscriptProofs
import Clboss.LockupTxProofs
import Clboss.MachineProofs
import Clboss.MemoizeProofs
import Clboss.NeedsConnectProofs
import Clboss.NodeIdProofs
import Clboss.NotificationProofs
import Clboss.OnchainFeeProofs
import Clboss.OrderedMapProofs
import Clboss.PeerFromScidMapperProofs
import Clboss.PeerMetricianProofs
import Clboss.PeerStatisticianProofs
import Clboss.PreinvestigatorProofs
import Clboss.PreorderProofs
import Clboss.PriceTheoryProofs
import Clboss.ProxyConnectorProofs
import Clboss.RankProofs
import Clboss.ReqRespProofs
import Clboss.ReservoirSamplerProofs
import Clboss.RpcProofs
import Clboss.RunGuardsProofs
import Clboss.ScidProofs
import Clboss.SegmentProofs
import Clboss.SemaphoreProofs
import Clboss.SendpayResultProofs
import Clboss.SighashProofs
import Clboss.SignalRaiseProofs
import Clboss.SignerProofs
import Clboss.SizeModderProofs
import Clboss.SizeTableProofs
import Clboss.SqlSchemaProofs
import Clboss.SqlValueProofs
import Clboss.Sqlite3DbProofs
import Clboss.SurveyorCompatProofs
import Clboss.SurveyorProofs
import Clboss.SwapAddressProofs
import Clboss.SwapAmountProofs
import Clboss.SwapCompletionProofs
import Clboss.SwapLifeProofs
import Clboss.SwapLinkProofs
import Clboss.SwapManagerProofs
import Clboss.SwapMoveProofs
import Clboss.SwapOfferProofs
import Clboss.SwapOutProofs
import Clboss.SwapPaymentProofs
import Clboss.SwapResponseProofs
import Clboss.SwapSetupCommitProofs
import Clboss.SwapSetupProofs
import Clboss.SwapStatusProofs
import Clboss.SwapViewProofs
import Clboss.SwapperProofs
import Clboss.ThreadPoolProofs
import Clboss.TxCodecProofs
import Clboss.TxHexProofs
import Clboss.UniqueTableProofs
import Clboss.UnmanagedManagerProofs
import Clboss.WaiterProofs
import Clboss.WeightedMedianProofs
import Clboss.WireTxProofs
import Clboss.XRebalancePartMonitorProofs
import Clboss.XRebalancerCapsProofs
import Clboss.XRebalancerCycleProofs
import Clboss.XRebalancerDemandProofs
import Clboss.XRebalancerGrantProofs
import Clboss.XRebalancerLadderProofs
import Clboss.XRebalancerOptionProofs
import Clboss.XRebalancerPlanProofs
import Clboss.XRebalancerProofs
